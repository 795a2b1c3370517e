import CantayaOS.Shell.Editor

/-!
# Command lines of the shell

What the shell does with a line around its execution (`shell/mod.rs`): it shows
and reads paths with a drive letter and backslashes, and it puts the values of
variables in.  Texts are lists of characters.
-/

namespace CantayaOS.Shell

open Lib.Utf8 List Storage

/-! ## Paths -/

def unixToWinPath (path : List Char) : List Char :=
  if path = ['/'] then ['C', ':', '\\']
  else ['C', ':'] ++ path.map fun ch => if ch = '/' then '\\' else ch

def slashed (path : List Char) : List Char := path.map fun ch => if ch = '\\' then '/' else ch

/-- The second byte of a text is a colon when its first character has one byte and the
second is a colon. -/
def winToUnixPath : List Char → List Char
  | drive :: ':' :: path =>
    if drive.utf8Size = 1 then
      let path := if path.head? = some '\\' ∨ path.head? = some '/' then path.tail else path
      if path = [] then ['/'] else slashed path
    else slashed (drive :: ':' :: path)
  | path => slashed path

/-- The separator behind the drive goes with the drive, so the path comes back relative. -/
theorem winToUnixPath_unixToWinPath {rest : List Char} (nonempty : rest ≠ []) (plain : '\\' ∉ rest) :
    winToUnixPath (unixToWinPath ('/' :: rest)) = rest := by
  have back : slashed (rest.map fun ch => if ch = '/' then '\\' else ch) = rest := by
    rw [slashed, List.map_map]
    refine (map_congr_left fun ch found => ?_).trans (List.map_id rest)
    have other : ch ≠ '\\' := fun same => plain (same ▸ found)
    by_cases slash : ch = '/'
    · simp [slash]
    · simp [slash, other]
  have shown : unixToWinPath ('/' :: rest) =
      'C' :: ':' :: '\\' :: rest.map fun ch => if ch = '/' then '\\' else ch := by
    rw [unixToWinPath, if_neg (by simp [nonempty])]
    rfl
  rw [shown, winToUnixPath, if_pos (by decide)]
  simp [nonempty, back]

theorem path_round_trip_iff (path : List Char) (absolute : path.head? = some '/')
    (plain : '\\' ∉ path) : winToUnixPath (unixToWinPath path) = path ↔ path = ['/'] := by
  obtain ⟨rest, rfl⟩ := head?_eq_some_iff.mp absolute
  constructor
  · intro same
    by_contra other
    have nonempty : rest ≠ [] := fun isEmpty => other (by rw [isEmpty])
    rw [winToUnixPath_unixToWinPath nonempty fun found => plain (mem_cons_of_mem _ found)] at same
    exact cons_ne_self _ _ same.symm
  · rintro root
    rw [root]
    rfl

theorem path_round_trip_root : winToUnixPath (unixToWinPath ['/']) = ['/'] :=
  (path_round_trip_iff ['/'] rfl (by decide)).mpr rfl

/-- The prompt shows `C:\bin` for `/bin`, and typed back it is `bin`. -/
theorem path_comes_back_relative :
    winToUnixPath (unixToWinPath ['/', 'b', 'i', 'n']) ≠ ['/', 'b', 'i', 'n'] := by decide

/-! ## Variables -/

variable {text : List Char}

section Variables

variable (envGet : List Char → Option (List Char))

/-- The loop of `expand_variables`, of which `skip` counts the bytes of a name that has been
looked up already.  The bytes outside of a name are pushed one by one as characters. -/
def expandFrom : Nat → List UInt8 → List Char
  | _, [] => []
  | skip + 1, _ :: rest => expandFrom skip rest
  | 0, byte :: rest =>
    if byte = 37 ∧ 37 ∈ rest then
      let bytes := rest.takeWhile (· ≠ 37)
      let varName := (Storage.fromUtf8 bytes).getD []
      (envGet varName).getD ('%' :: varName ++ ['%']) ++ expandFrom (bytes.length + 1) rest
    else Char.ofNat byte.toNat :: expandFrom 0 rest

def expandVariables (input : List Char) : List Char := expandFrom envGet 0 (Storage.toUtf8 input)

/-- A text is read from the left as names between percent signs and single characters. -/
inductive Piece where
  | literal (char : Char)
  | named (name : List Char)

/-- The pieces of a text behind an open percent sign and a part of a name, if there is one. -/
def piecesFrom : Option (List Char) → List Char → List Piece
  | none, [] => []
  | some name, [] => .literal '%' :: name.map .literal
  | none, char :: rest =>
    if char = '%' then piecesFrom (some []) rest else .literal char :: piecesFrom none rest
  | some name, char :: rest =>
    if char = '%' then .named name :: piecesFrom none rest
    else piecesFrom (some (name ++ [char])) rest

def pieces (input : List Char) : List Piece := piecesFrom none input

/-- A piece with the value of its variable, which stays as it is when it is not defined. -/
def Piece.render (literal : Char → List Char) : Piece → List Char
  | .literal char => literal char
  | .named name => (envGet name).getD ('%' :: name ++ ['%'])

def expansion (input : List Char) : List Char :=
  (pieces input).flatMap (Piece.render envGet fun char => [char])

/-- The characters that the bytes of a character are taken for. -/
def bytewise (char : Char) : List Char :=
  (String.utf8EncodeChar char).map fun byte => Char.ofNat byte.toNat

theorem percent_mem_encode (char : Char) : 37 ∈ String.utf8EncodeChar char ↔ char = '%' := by
  refine ⟨fun found => ?_, fun same => by rw [same]; decide⟩
  have value : ∀ n, 37 = UInt8.ofNat n → 37 = n % 256 := fun n same => congrArg UInt8.toNat same
  -- all bytes of a longer character are at least 128
  unfold String.utf8EncodeChar at found
  dsimp only at found
  split_ifs at found with one two three <;>
    simp only [mem_cons, not_mem_nil, or_false] at found
  · have code : char.val.toNat = 37 := by
      have := value _ found
      omega
    exact Char.ext (UInt32.toNat_inj.mp code)
  · rcases found with same | same <;> have := value _ same <;> omega
  · rcases found with same | same | same <;> have := value _ same <;> omega
  · rcases found with same | same | same | same <;> have := value _ same <;> omega

theorem percent_mem_iff : 37 ∈ toUtf8 text ↔ '%' ∈ text := by
  simp only [toUtf8, mem_flatMap, percent_mem_encode, exists_eq_right]

theorem expandFrom_skip (front back : List UInt8) :
    expandFrom envGet front.length (front ++ back) = expandFrom envGet 0 back := by
  induction front with
  | nil => rfl
  | cons byte front ih => exact ih

theorem expandFrom_plain {front : List UInt8} (plain : 37 ∉ front) (back : List UInt8) :
    expandFrom envGet 0 (front ++ back) =
      (front.map fun byte => Char.ofNat byte.toNat) ++ expandFrom envGet 0 back := by
  induction front with
  | nil => rfl
  | cons byte front ih =>
    rw [mem_cons, not_or] at plain
    rw [cons_append, expandFrom, if_neg fun h => plain.1 h.1.symm, ih plain.2]
    rfl

theorem piecesFrom_closed {name : List Char} (plain : '%' ∉ name) (front back : List Char) :
    piecesFrom (some front) (name ++ '%' :: back) =
      .named (front ++ name) :: piecesFrom none back := by
  induction name generalizing front with
  | nil => simp [piecesFrom]
  | cons char name ih =>
    rw [mem_cons, not_or] at plain
    rw [cons_append, piecesFrom, if_neg (Ne.symm plain.1), ih plain.2]
    simp

theorem piecesFrom_plain (plain : '%' ∉ text) (open? : Option (List Char)) : piecesFrom open? text =
      (open?.elim [] (fun name => '%' :: name) ++ text).map .literal := by
  induction text generalizing open? with
  | nil => cases open? <;> simp [piecesFrom]
  | cons char text ih =>
    rw [mem_cons, not_or] at plain
    cases open? with
    | none => simp [piecesFrom, Ne.symm plain.1, ih plain.2]
    | some name => simp [piecesFrom, Ne.symm plain.1, ih plain.2]

/-- The scan over the bytes reads the same pieces and pushes the others byte by byte. -/
theorem expandVariables_eq : ∀ input : List Char,
    expandVariables envGet input = (pieces input).flatMap (Piece.render envGet bytewise)
  | [] => rfl
  | char :: rest => by
    by_cases percent : char = '%'
    · subst percent
      by_cases closed : '%' ∈ rest
      · obtain ⟨name, back, rfl, plain⟩ := eq_append_cons_of_mem closed
        have bytes : toUtf8 ('%' :: (name ++ '%' :: back)) =
            37 :: ((toUtf8 name ++ [37]) ++ toUtf8 back) := by
          simp [toUtf8, String.utf8EncodeChar]
        have named : ((toUtf8 name ++ [37]) ++ toUtf8 back).takeWhile (· ≠ 37) =
            toUtf8 name := by
          rw [append_assoc, takeWhile_append_of_pos fun byte found => ?_]
          · simp
          · have : byte ≠ 37 := fun same => plain (percent_mem_iff.mp (same ▸ found))
            simp [this]
        have skipped := expandFrom_skip envGet (toUtf8 name ++ [37]) (toUtf8 back)
        rw [length_append, length_singleton] at skipped
        have ih := expandVariables_eq back
        rw [expandVariables, pieces] at ih ⊢
        rw [bytes, expandFrom, if_pos ⟨rfl, by simp⟩, named]
        dsimp only
        rw [fromUtf8_toUtf8, skipped, ih, piecesFrom, if_pos rfl, piecesFrom_closed plain]
        rfl
      · have ended := expandFrom_plain envGet (mt percent_mem_iff.mp closed) []
        rw [append_nil] at ended
        have bytes : toUtf8 ('%' :: rest) = 37 :: toUtf8 rest := rfl
        rw [expandVariables, pieces, bytes, expandFrom,
          if_neg fun both => closed (percent_mem_iff.mp both.2), ended, toUtf8,
          map_flatMap, piecesFrom, if_pos rfl, piecesFrom_plain closed, flatMap_map]
        simp [expandFrom, Piece.render, bytewise, String.utf8EncodeChar]
    · have ih := expandVariables_eq rest
      rw [expandVariables, pieces] at ih ⊢
      rw [toUtf8, flatMap_cons,
        expandFrom_plain envGet (mt (percent_mem_encode char).mp percent), piecesFrom,
        if_neg percent, flatMap_cons]
      exact congrArg _ ih
termination_by input => input.length

theorem bytewise_single {char : Char} (single : char.utf8Size = 1) : bytewise char = [char] := by
  have small : char.val.toNat ≤ 127 := Char.utf8Size_eq_one_iff.mp single
  have code : (UInt8.ofNat char.val.toNat).toNat = char.toNat :=
    UInt8.toNat_ofNat_of_lt' (small.trans_lt (by decide))
  rw [bytewise, String.utf8EncodeChar, if_pos small, map_singleton, code, Char.ofNat_toNat]

theorem expandVariables_eq_iff (input : List Char) :
    expandVariables envGet input = expansion envGet input ↔
      ∀ char, .literal char ∈ pieces input → char.utf8Size = 1 := by
  rw [expandVariables_eq, expansion]
  constructor
  · intro same char found
    by_contra long
    have size (char : Char) : (bytewise char).length = char.utf8Size := by
      rw [bytewise, length_map, String.length_utf8EncodeChar]
    -- no piece gets shorter, and this one gets longer
    have longer : ((pieces input).map fun piece => (piece.render envGet fun char => [char]).length).sum <
        ((pieces input).map fun piece => (piece.render envGet bytewise).length).sum := by
      refine List.sum_lt_sum _ _ (fun piece _ => ?_) ⟨_, found, ?_⟩
      · cases piece with
        | named name => exact le_rfl
        | literal char => exact lt_of_lt_of_eq (utf8Size_pos char) (size char).symm
      · have more := utf8Size_pos char
        simp only [Piece.render, size, length_singleton]
        omega
    rw [← List.length_flatMap, ← List.length_flatMap, same] at longer
    exact lt_irrefl _ longer
  · intro single
    refine flatMap_congr fun piece found => ?_
    cases piece with
    | named name => rfl
    | literal char => exact bytewise_single (single char found)

end Variables

/-- The two bytes of a letter with an accent come out as two characters. -/
theorem accent_comes_out_twice :
    expandVariables (fun _ => none) ['é'] ≠ expansion (fun _ => none) ['é'] := by decide

end CantayaOS.Shell
