import SecureMessaging.Lib.Containers
import SecureMessaging.Lib.Splitting

def newline : UInt8 := 10

/-- The characters that are still to be extracted, and the bits of the state. -/
structure InputStream where
  unread : List UInt8
  eof : Bool
  fail : Bool

namespace InputStream

def ofText (text : List UInt8) : InputStream := ⟨text, false, false⟩

def good (stream : InputStream) : Bool := !stream.eof && !stream.fail

/-- `std::getline`: nothing is extracted from a stream that is not good, and the string keeps what it held. -/
def getline (stream : InputStream) (str : ByteString) : ByteString × InputStream :=
  if stream.good then
    let line := stream.unread.takeWhile (· != newline)
    if h : line.length ≤ stringMaxSize then
      match stream.unread.drop line.length with
      | [] => (⟨line, h⟩, { unread := [], eof := true, fail := line.isEmpty })
      | _ :: rest => (⟨line, h⟩, { stream with unread := rest })
    else
      (⟨line.take stringMaxSize, List.length_take_le _ _⟩,
        { stream with unread := stream.unread.drop stringMaxSize, fail := true })
  else (str, { stream with fail := true })

/-- The lines that are still to come; the last one needs no newline behind it. -/
def lines (stream : InputStream) : List (List UInt8) := if stream.good then stream.unread.pieces newline else []

variable {stream : InputStream} {str : ByteString}

theorem good_of_lines {line : List UInt8} {rest : List (List UInt8)} (h : stream.lines = line :: rest) :
    stream.good = true := by
  by_contra hbad
  rw [lines, if_neg hbad] at h
  cases h

theorem takeWhile_line {line : List UInt8} (hline : newline ∉ line) (rest : List UInt8)
    (hrest : rest = [] ∨ ∃ behind, rest = newline :: behind) :
    (line ++ rest).takeWhile (· != newline) = line := by
  have hall : ∀ c ∈ line, (c != newline) = true := by
    intro c hc
    rw [bne_iff_ne]
    rintro rfl
    exact hline hc
  rw [List.takeWhile_append_of_pos hall]
  rcases hrest with rfl | ⟨behind, rfl⟩
  · exact List.append_nil line
  · rw [List.takeWhile_cons_of_neg (by simp), List.append_nil]

/-- A line that a string can hold is what `getline` gives, with a newline behind it or at the end. -/
theorem getline_line {line : List UInt8} {rest : List (List UInt8)} (str : ByteString)
    (h : stream.lines = line :: rest) (hfits : line.length ≤ stringMaxSize) :
    ∃ next, stream.getline str = (⟨line, hfits⟩, next) ∧ next.lines = rest := by
  have hgood := good_of_lines h
  rw [lines, if_pos hgood] at h
  by_cases hmem : newline ∈ stream.unread
  · obtain ⟨front, behind, hunread, hfront⟩ := List.eq_append_cons_of_mem hmem
    rw [hunread, List.pieces_append hfront] at h
    obtain ⟨rfl, rfl⟩ := List.cons.inj h
    have hline : stream.unread.takeWhile (· != newline) = front := by
      rw [hunread]
      exact takeWhile_line hfront _ (Or.inr ⟨behind, rfl⟩)
    have hbehind : stream.unread.drop front.length = newline :: behind := by rw [hunread, List.drop_left]
    refine ⟨{ stream with unread := behind }, ?_, ?_⟩
    · simp only [getline, if_pos hgood, hline, dif_pos hfits, hbehind]
    · have hstill : ({ stream with unread := behind } : InputStream).good = true := hgood
      rw [lines, if_pos hstill]
  · rw [List.pieces_of_not_mem hmem] at h
    split at h
    next => cases h
    next hne =>
      obtain ⟨rfl, rfl⟩ := List.cons.inj h
      have hline : stream.unread.takeWhile (· != newline) = stream.unread := by
        have hwhole := takeWhile_line hmem [] (Or.inl rfl)
        rwa [List.append_nil] at hwhole
      have hbehind : stream.unread.drop stream.unread.length = [] := List.drop_length
      refine ⟨⟨[], true, stream.unread.isEmpty⟩, ?_, rfl⟩
      simp only [getline, if_pos hgood, hline, dif_pos hfits, hbehind]

/-- When no line is left there will be none, and the string is left as it is or emptied. -/
theorem getline_over (str : ByteString) (h : stream.lines = []) :
    (stream.getline str).2.lines = [] ∧
      ((stream.getline str).1 = str ∨ (stream.getline str).1 = ByteString.empty) := by
  by_cases hgood : stream.good = true
  · have hunread : stream.unread = [] := by
      rw [lines, if_pos hgood] at h
      by_contra hne
      exact List.pieces_ne_nil hne h
    have hzero : ([] : List UInt8).length ≤ stringMaxSize := Nat.zero_le _
    have hcall : stream.getline str = (⟨[], hzero⟩, ⟨[], true, true⟩) := by
      simp [getline, hgood, hunread]
    rw [hcall]
    exact ⟨rfl, Or.inr rfl⟩
  · have hcall : stream.getline str = (str, { stream with fail := true }) := if_neg hgood
    have hbad : ({ stream with fail := true } : InputStream).good = false := Bool.and_false _
    rw [hcall, lines, hbad]
    exact ⟨rfl, Or.inl rfl⟩

end InputStream
