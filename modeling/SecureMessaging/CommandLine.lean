import SecureMessaging.Lib.Splitting
import SecureMessaging.Lib.Strings
import SecureMessaging.Server

namespace SecureMessaging

def space : UInt8 := 32

/-- The loop of `ParseCommandArguments` from its test on; `j` is what the last `find` returned. -/
def parseArgumentsFrom (str : ByteString) (i : Nat) (args : List ByteString) : Fallible (List ByteString) :=
  match _h : str.find space i with
  | some j => do
    let piece ← str.substr i (j - i)
    parseArgumentsFrom str (j + 1) (args ++ [piece])
  | none =>
    if i < str.data.length then do
      let piece ← str.substr i ByteString.npos
      pure (args ++ [piece])
    else pure args
termination_by str.data.length - i
decreasing_by
  have hj := ByteString.find_lt _h
  omega

def parseCommandArguments (str : ByteString) : Fallible (List ByteString) := parseArgumentsFrom str 0 []

/-- The pieces joined by single spaces. -/
def joinWithSpaces (args : List ByteString) : List UInt8 := List.intercalate [space] (args.map ByteString.data)

theorem parseArgumentsFrom_found {str : ByteString} {i j : Nat} (args : List ByteString)
    (h : str.find space i = some j) : ∃ piece, piece.data = (str.data.drop i).take (j - i) ∧
      parseArgumentsFrom str i args = parseArgumentsFrom str (j + 1) (args ++ [piece]) := by
  have hlt := ByteString.find_lt h
  obtain ⟨piece, hpiece, hdata⟩ := ByteString.substr_ok (j - i) (show i ≤ str.data.length by omega)
  refine ⟨piece, hdata, ?_⟩
  rw [parseArgumentsFrom]
  split
  next j' hj' =>
    cases hj'.symm.trans h
    rw [hpiece]
    rfl
  next hnone => cases hnone.symm.trans h

theorem parseArgumentsFrom_last {str : ByteString} {i : Nat} (args : List ByteString)
    (h : str.find space i = none) : ∃ pieces, pieces.map ByteString.data =
        (if str.data.drop i = [] then [] else [str.data.drop i]) ∧
      parseArgumentsFrom str i args = .ok (args ++ pieces) := by
  have hloop : parseArgumentsFrom str i args = if i < str.data.length then do
      let piece ← str.substr i ByteString.npos
      pure (args ++ [piece])
    else pure args := by
    rw [parseArgumentsFrom]
    split
    next j hj => cases hj.symm.trans h
    next => rfl
  by_cases hi : i < str.data.length
  · obtain ⟨piece, hpiece, hdata⟩ := ByteString.substr_ok ByteString.npos (Nat.le_of_lt hi)
    have hall : piece.data = str.data.drop i := by
      have hmax := str.length_lt
      rw [hdata]
      refine List.take_of_length_le ?_
      rw [List.length_drop, ByteString.npos]
      omega
    have hne : str.data.drop i ≠ [] := List.ne_nil_of_length_pos (by rw [List.length_drop]; omega)
    refine ⟨[piece], ?_, ?_⟩
    · rw [if_neg hne, List.map_singleton, hall]
    · rw [hloop, if_pos hi, hpiece]
      rfl
  · have hnil : str.data.drop i = [] := List.drop_eq_nil_of_le (by omega)
    refine ⟨[], ?_, ?_⟩
    · rw [if_pos hnil, List.map_nil]
    · rw [hloop, if_neg hi, List.append_nil]
      rfl

/-- From any position on the loop collects the pieces of what is behind it. -/
theorem parseArgumentsFrom_pieces (str : ByteString) (i : Nat) (args : List ByteString) :
    ∃ pieces, pieces.map ByteString.data = (str.data.drop i).pieces space ∧
      parseArgumentsFrom str i args = .ok (args ++ pieces) := by
  induction hn : str.data.length - i using Nat.strongRecOn generalizing i args with
  | ind n ih =>
    cases hfind : str.find space i with
    | some j =>
      have hlt := ByteString.find_lt hfind
      obtain ⟨front, rest, hdrop, hfront, hj⟩ := ByteString.find_some hfind
      obtain ⟨piece, hdata, hloop⟩ := parseArgumentsFrom_found args hfind
      obtain ⟨pieces, hpieces, hrest⟩ := ih (str.data.length - (j + 1)) (by omega) (j + 1) (args ++ [piece]) rfl
      have hpiece : piece.data = front := by
        rw [hdata, hdrop, hj, Nat.add_sub_cancel_left, List.take_left]
      have hbehind : str.data.drop (j + 1) = rest := by
        have hskip : str.data.drop (j + 1) = (str.data.drop i).drop (front.length + 1) := by
          rw [List.drop_drop, hj, Nat.add_assoc]
        rw [hskip, hdrop, List.drop_append, List.drop_eq_nil_of_le (by omega), Nat.add_sub_cancel_left]
        rfl
      refine ⟨piece :: pieces, ?_, ?_⟩
      · rw [List.map_cons, hpieces, hbehind, hpiece, hdrop, List.pieces_append hfront]
      · rw [hloop, hrest, List.append_assoc]
        rfl
    | none =>
      obtain ⟨pieces, hpieces, hlast⟩ := parseArgumentsFrom_last args hfind
      refine ⟨pieces, ?_, hlast⟩
      rw [hpieces, List.pieces_of_not_mem (ByteString.find_none hfind)]

theorem parseCommandArguments_pieces (str : ByteString) : ∃ args, args.map ByteString.data = str.data.pieces space ∧
    parseCommandArguments str = .ok args := by
  obtain ⟨pieces, hpieces, hparse⟩ := parseArgumentsFrom_pieces str 0 []
  exact ⟨pieces, hpieces, hparse⟩

/-- The pieces have no space in them, and they and the spaces between them are the line; a space at
its end ends the last piece. -/
theorem splitting_lossless (str : ByteString) : ∃ args, parseCommandArguments str = .ok args ∧
    (∀ arg ∈ args, space ∉ arg.data) ∧
    str.data = joinWithSpaces args ++ (if str.data.getLast? = some space then [space] else []) ∧
    args.length = str.data.count space + if str.data ≠ [] ∧ str.data.getLast? ≠ some space then 1 else 0 := by
  obtain ⟨args, hargs, hparse⟩ := parseCommandArguments_pieces str
  refine ⟨args, hparse, ?_, ?_, ?_⟩
  · intro arg harg
    have hpiece : arg.data ∈ str.data.pieces space := by
      rw [← hargs]
      exact List.mem_map_of_mem harg
    exact List.not_mem_of_mem_pieces hpiece
  · have hjoin := List.intercalate_pieces space str.data
    rw [← hargs] at hjoin
    exact hjoin.symm
  · rw [← List.length_pieces, ← hargs, List.length_map]

end SecureMessaging
