import SecureMessaging.Lib.Overwrite

namespace SecureMessaging

/-- An `ArraySink` of CryptoPP: the memory from its pointer on, the size it was told and how much
it got. What comes when it is full is dropped. -/
structure ArraySink where
  memory : List UInt8
  size : Nat
  total : Nat

namespace ArraySink

def new (memory : List UInt8) (size : Nat) : ArraySink := ⟨memory, size, 0⟩

def put (sink : ArraySink) (bytes : List UInt8) : ArraySink :=
  let kept := bytes.take (sink.size - sink.total)
  { sink with memory := sink.memory.overwrite sink.total kept, total := sink.total + kept.length }

def totalPutLength (sink : ArraySink) : Nat := sink.total

theorem put_fits {sink : ArraySink} {bytes : List UInt8} (h : sink.total + bytes.length ≤ sink.size) :
    sink.put bytes =
      { sink with memory := sink.memory.overwrite sink.total bytes, total := sink.total + bytes.length } := by
  have hall : bytes.take (sink.size - sink.total) = bytes := List.take_of_length_le (by omega)
  rw [put, hall]

theorem new_put (memory : List UInt8) (size : Nat) (bytes : List UInt8) :
    ((new memory size).put bytes).memory = memory.overwrite 0 (bytes.take size) := rfl

end ArraySink

end SecureMessaging
