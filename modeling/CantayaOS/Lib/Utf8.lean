import CantayaOS.Lib.Checked

/-!
# Strings with byte offsets

A string whose positions are byte offsets, as in languages that keep text in
UTF-8: a position is good when it is the end of a run of whole characters, and
taking, inserting or removing text at any other position is a fault.
-/

namespace CantayaOS.Lib.Utf8

def byteLen : List Char → Nat
  | [] => 0
  | char :: rest => char.utf8Size + byteLen rest

/-- The offset is the end of a run of whole characters. -/
def Boundary (text : List Char) (offset : Nat) : Prop :=
  ∃ front back, text = front ++ back ∧ byteLen front = offset

def splitAt : List Char → Nat → Except Fault (List Char × List Char)
  | text, 0 => .ok ([], text)
  | [], _ + 1 => .error .panic
  | char :: rest, offset + 1 =>
    if char.utf8Size ≤ offset + 1 then
      match splitAt rest (offset + 1 - char.utf8Size) with
      | .ok (front, back) => .ok (char :: front, back)
      | .error fault => .error fault
    else .error .panic

def insertAt (text : List Char) (offset : Nat) (piece : List Char) : Except Fault (List Char) :=
  match splitAt text offset with
  | .ok (front, back) => .ok (front ++ piece ++ back)
  | .error fault => .error fault

def removeAt (text : List Char) (offset : Nat) : Except Fault (List Char) :=
  match splitAt text offset with
  | .ok (front, _ :: rest) => .ok (front ++ rest)
  | .ok (_, []) => .error .panic
  | .error fault => .error fault

/-- A line that has been read backwards, without the carriage return before its end. -/
def dropReturn : List Char → List Char
  | '\r' :: before => before
  | front => front

/-- The lines of a text of which a part has been read backwards.  A line ends with a line
feed, which a carriage return may precede. -/
def linesFrom : List Char → List Char → List (List Char)
  | [], front => if front = [] then [] else [front.reverse]
  | char :: rest, front =>
    if char = '\n' then (dropReturn front).reverse :: linesFrom rest []
    else linesFrom rest (char :: front)

def lines (text : List Char) : List (List Char) := linesFrom text []

variable {text front : List Char} {offset : Nat} {char : Char}

@[simp] theorem byteLen_nil : byteLen [] = 0 := rfl

@[simp] theorem byteLen_append (front back : List Char) :
    byteLen (front ++ back) = byteLen front + byteLen back := by
  induction front with
  | nil => rw [List.nil_append, byteLen_nil, Nat.zero_add]
  | cons char rest ih => rw [List.cons_append, byteLen, byteLen, ih, Nat.add_assoc]

theorem utf8Size_pos (char : Char) : 0 < char.utf8Size := Char.utf8Size_pos char

theorem splitAt_append (front back : List Char) :
    splitAt (front ++ back) (byteLen front) = .ok (front, back) := by
  induction front with
  | nil => cases back <;> rfl
  | cons char rest ih =>
    have positive := utf8Size_pos char
    obtain ⟨before, isBefore⟩ : ∃ before, byteLen (char :: rest) = before + 1 :=
      ⟨byteLen (char :: rest) - 1, by rw [byteLen]; omega⟩
    have later : before + 1 - char.utf8Size = byteLen rest := by
      rw [← isBefore, byteLen, Nat.add_sub_cancel_left]
    have fits : char.utf8Size ≤ before + 1 := by
      rw [← isBefore]
      exact Nat.le_add_right _ _
    rw [isBefore, List.cons_append, splitAt, if_pos fits, later, ih]

theorem splitAt_eq_ok {back : List Char} (split : splitAt text offset = .ok (front, back)) :
    text = front ++ back ∧ byteLen front = offset := by
  induction text generalizing front back offset with
  | nil =>
    cases offset with
    | zero =>
      cases split
      exact ⟨rfl, rfl⟩
    | succ offset => exact nomatch split
  | cons char rest ih =>
    cases offset with
    | zero =>
      cases split
      exact ⟨rfl, rfl⟩
    | succ offset =>
      rw [splitAt] at split
      by_cases fits : char.utf8Size ≤ offset + 1
      · rw [if_pos fits] at split
        cases later : splitAt rest (offset + 1 - char.utf8Size) with
        | error fault =>
          rw [later] at split
          exact nomatch split
        | ok parts =>
          rw [later] at split
          cases split
          obtain ⟨isRest, length⟩ := ih later
          refine ⟨by rw [isRest, List.cons_append], ?_⟩
          rw [byteLen, length]
          exact Nat.add_sub_cancel' fits
      · rw [if_neg fits] at split
        exact nomatch split

/-- A text can be split at the boundaries and nowhere else. -/
theorem splitAt_ok_iff : (∃ parts, splitAt text offset = .ok parts) ↔ Boundary text offset := by
  constructor
  · rintro ⟨⟨front, back⟩, split⟩
    obtain ⟨isText, length⟩ := splitAt_eq_ok split
    exact ⟨front, back, isText, length⟩
  · rintro ⟨front, back, rfl, rfl⟩
    exact ⟨(front, back), splitAt_append front back⟩

def Single (text : List Char) : Prop := ∀ char ∈ text, char.utf8Size = 1

instance (text : List Char) : Decidable (Single text) :=
  List.decidableBAll (fun char : Char => char.utf8Size = 1) text

theorem Single.byteLen_eq (single : Single text) : byteLen text = text.length := by
  induction text with
  | nil => rfl
  | cons char rest ih =>
    have others : Single rest := fun other member => single other (List.mem_cons_of_mem _ member)
    rw [byteLen, single char (.head _), ih others, List.length_cons, Nat.add_comm]

theorem Single.append {back : List Char} (first : Single front) (second : Single back) :
    Single (front ++ back) := List.forall_mem_append.mpr ⟨first, second⟩

/-- In such a text every offset up to the end is a boundary. -/
theorem Single.splitAt_eq (single : Single text) (inside : offset ≤ byteLen text) :
    splitAt text offset = .ok (text.take offset, text.drop offset) := by
  have front : Single (text.take offset) := fun char member => single char (List.mem_of_mem_take member)
  have length : byteLen (text.take offset) = offset := by
    rw [front.byteLen_eq, List.length_take, Nat.min_eq_left]
    rw [single.byteLen_eq] at inside
    exact inside
  have split := splitAt_append (text.take offset) (text.drop offset)
  rwa [List.take_append_drop, length] at split

theorem Single.boundary_iff (single : Single text) :
    Boundary text offset ↔ offset ≤ byteLen text := by
  constructor
  · rintro ⟨front, back, rfl, rfl⟩
    rw [byteLen_append]
    exact Nat.le_add_right _ _
  · intro inside
    exact splitAt_ok_iff.mp ⟨_, single.splitAt_eq inside⟩

/-- A text in which every offset is a boundary has single bytes only. -/
theorem single_of_boundaries
    (all : ∀ offset ≤ byteLen text, Boundary text offset) : Single text := by
  intro char member
  obtain ⟨before, behind, rfl⟩ := List.append_of_mem member
  have positive := utf8Size_pos char
  -- the offset one byte into the character can only be its end
  obtain ⟨front, back, isText, length⟩ := all (byteLen before + 1) (by
    rw [byteLen_append, byteLen]
    omega)
  rcases List.append_eq_append_iff.mp isText with ⟨middle, rfl, isBehind⟩ | ⟨middle, rfl, -⟩
  · cases middle with
    | nil =>
      rw [List.append_nil] at length
      omega
    | cons first rest =>
      rw [List.cons_append, List.cons.injEq] at isBehind
      rw [byteLen_append, byteLen, ← isBehind.1] at length
      omega
  · rw [byteLen_append] at length
    omega

theorem dropReturn_subset (front : List Char) : ∀ char ∈ dropReturn front, char ∈ front := by
  intro char member
  unfold dropReturn at member
  split at member
  · exact List.mem_cons_of_mem _ member
  · exact member

theorem mem_dropReturn (member : char ∈ front) : char = '\r' ∨ char ∈ dropReturn front := by
  unfold dropReturn
  split
  · exact List.mem_cons.mp member
  · exact .inr member

/-- Every character of a line is one of the text. -/
theorem mem_of_mem_linesFrom {line : List Char}
    (isLine : line ∈ linesFrom text front) (member : char ∈ line) : char ∈ front ∨ char ∈ text := by
  induction text generalizing front with
  | nil =>
    rw [linesFrom] at isLine
    split at isLine
    · exact absurd isLine List.not_mem_nil
    · rw [List.mem_singleton.mp isLine, List.mem_reverse] at member
      exact .inl member
  | cons first rest ih =>
    rw [linesFrom] at isLine
    split at isLine
    · rcases List.mem_cons.mp isLine with rfl | later
      · exact .inl (dropReturn_subset front char (List.mem_reverse.mp member))
      · rcases ih later with before | behind
        · exact absurd before List.not_mem_nil
        · exact .inr (List.mem_cons_of_mem _ behind)
    rcases ih isLine with before | behind
    · rcases List.mem_cons.mp before with rfl | earlier
      · exact .inr (.head _)
      · exact .inl earlier
    · exact .inr (List.mem_cons_of_mem _ behind)

/-- Every character of a text is in a line or belongs to the end of one. -/
theorem mem_linesFrom (member : char ∈ front ∨ char ∈ text) :
    char = '\n' ∨ char = '\r' ∨ ∃ line ∈ linesFrom text front, char ∈ line := by
  induction text generalizing front with
  | nil =>
    have inFront := member.resolve_right List.not_mem_nil
    rw [linesFrom, if_neg (List.ne_nil_of_mem inFront)]
    exact .inr (.inr ⟨_, List.mem_singleton_self _, List.mem_reverse.mpr inFront⟩)
  | cons first rest ih =>
    rw [linesFrom]
    split
    · rename_i feed
      rcases member with before | behind
      · rcases mem_dropReturn before with isReturn | kept
        · exact .inr (.inl isReturn)
        · exact .inr (.inr ⟨_, (.head _), List.mem_reverse.mpr kept⟩)
      rcases List.mem_cons.mp behind with rfl | later
      · exact .inl feed
      · rcases ih (.inr later) with isFeed | isReturn | ⟨line, isLine, inLine⟩
        · exact .inl isFeed
        · exact .inr (.inl isReturn)
        · exact .inr (.inr ⟨line, List.mem_cons_of_mem _ isLine, inLine⟩)
    · refine ih ?_
      rcases member with before | behind
      · exact .inl (List.mem_cons_of_mem _ before)
      · rcases List.mem_cons.mp behind with rfl | later
        · exact .inl (.head _)
        · exact .inr later

/-- A text has single bytes only when its lines have. -/
theorem single_iff_lines (text : List Char) : Single text ↔ ∀ line ∈ lines text, Single line := by
  constructor
  · intro single line isLine char member
    exact single char ((mem_of_mem_linesFrom isLine member).resolve_left List.not_mem_nil)
  · intro single char member
    rcases mem_linesFrom (.inr member) with rfl | rfl | ⟨line, isLine, inLine⟩
    · rfl
    · rfl
    · exact single line isLine char inLine

end CantayaOS.Lib.Utf8
