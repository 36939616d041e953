-- SUMMARY: A cursor that counts bytes stands between characters, only moves forward, and reads what the readers of tokens read.
import Egg.Proofs.Parse.Descent
import Egg.Proofs.Text.Offset
import Egg.Proofs.Text.Slice

/-!
# A cursor that counts bytes

The readers of `Egg/Parse/Token.lean` give back the rest of a source. A cursor keeps the whole
source and the number of bytes that it has read, finds the end of a token by offsets and bytes,
and cuts the source at its position again for each token. A cut inside of a character would
fail. It never does, because each token ends where a character ends: the cursor reads what the
readers read, and stands in front of what they leave.
-/

namespace Egg.Parse

open Text Grammar

/-! ## What a cursor is asked to read -/

/-- What a cursor is asked to read at the front of its rest. -/
inductive Move where
  /-- All the blanks there, if any. -/
  | blanks
  | char (c : Char)
  | quoted
  | digits
  | word
deriving DecidableEq

namespace Move

/-- Look for a token at the front of `rest` by offsets and bytes. If it stands there, hand out its
    text, for a quoted text without the quotes, and the number of bytes to move on. There is no
    answer at all if `rest` would have to be cut inside of a character. -/
def take? : Move → List Char → Option (Option (List Char × Nat))
  | blanks, rest => some (some ([], byteSize rest - byteSize (rest.dropWhile isBlank)))
  | char c, rest => some (if rest.head? = some c then some ([], c.utf8Size) else none)
  | quoted, '"' :: body =>
    match find? (· == '"') body with
    | some close => (cut? close body).map fun halves => some (halves.1, close + 2)
    | none => some none
  | quoted, _ => some none
  | digits, rest =>
    let size := ((utf8 rest).takeWhile (isDigitCode ·.toNat)).length
    if size = 0 then some none
    else if (utf8 rest)[size]?.any (isNameCode ·.toNat) then some none
    else (cut? size rest).map fun halves => some (halves.1, size)
  | word, rest =>
    let size := (find? (!isWordChar ·) rest).getD (byteSize rest)
    if size = 0 then some none
    else (cut? size rest).map fun halves => some (halves.1, size)

/-- The text that the reader of the token hands out, and the rest that it leaves. -/
def read? : Move → List Char → Option (List Char × List Char)
  | blanks, rest => some ([], skipBlanks rest)
  | char c, rest => if rest.head? = some c then some ([], rest.tail) else none
  | quoted, rest => quoted? rest
  | digits, rest => digits? rest
  | word, rest => word? rest

/-- In front of `before`, the text handed out is `given`, and `after` is left. -/
inductive Takes : Move → List Char → List Char → List Char → Prop where
  | blanks {run after} : Blanks run → StopsAt isBlank after → Takes .blanks [] (run ++ after) after
  | char {c after} : Takes (.char c) [] (c :: after) after
  | quoted {contents after} : '"' ∉ contents →
      Takes .quoted contents ('"' :: contents ++ '"' :: after) after
  | digits {run after} : run ≠ [] → (∀ c ∈ run, c.isDigit = true) →
      StopsAt (fun c => c.isDigit || goesOn c) after → Takes .digits run (run ++ after) after
  | word {run after} : run ≠ [] → (∀ c ∈ run, isWordChar c = true) →
      StopsAt isWordChar after → Takes .word run (run ++ after) after

theorem takes_of_read? {m : Move} {before given after : List Char}
    (h : m.read? before = some (given, after)) : m.Takes given before after := by
  cases m with
  | blanks =>
    obtain ⟨rfl, hskip⟩ := Prod.mk.inj (Option.some.inj h)
    obtain ⟨run, rfl, hrun, hstop⟩ := skipBlanks_eq_iff.mp hskip
    exact .blanks hrun hstop
  | char c =>
    rw [read?] at h
    split at h
    · next hhead =>
      obtain ⟨rfl, rfl⟩ := Prod.mk.inj (Option.some.inj h)
      obtain ⟨tail, rfl⟩ := List.head?_eq_some_iff.mp hhead
      exact .char
    · cases h
  | quoted =>
    obtain ⟨rfl, hcontents⟩ := quoted?_eq_some_iff.mp h
    exact .quoted hcontents
  | digits =>
    obtain ⟨rfl, hne, hrun, hstop⟩ := digits?_eq_some_iff.mp h
    exact .digits hne hrun hstop
  | word =>
    obtain ⟨rfl, hne, hrun, hstop⟩ := word?_eq_some_iff.mp h
    exact .word hne hrun hstop

/-- What a move leaves is the end of what it finds, and not all of it, blanks apart. -/
theorem Takes.exists_front {m : Move} {given before after : List Char}
    (h : m.Takes given before after) :
    ∃ front, before = front ++ after ∧ (m ≠ .blanks → front ≠ []) := by
  cases h with
  | blanks => exact ⟨_, rfl, fun hne => absurd rfl hne⟩
  | @char c => exact ⟨[c], rfl, fun _ => List.cons_ne_nil _ _⟩
  | quoted => exact ⟨'"' :: given ++ ['"'], by simp, fun _ => List.cons_ne_nil _ _⟩
  | digits hne | word hne => exact ⟨_, rfl, fun _ => hne⟩

/-! ## Offsets and bytes against characters -/

theorem take?_char (c : Char) (rest : List Char) : (char c).take? rest =
    some (((char c).read? rest).map fun r => (r.1, byteSize rest - byteSize r.2)) := by
  rw [take?, read?]
  split
  · next hhead =>
    obtain ⟨tail, rfl⟩ := List.head?_eq_some_iff.mp hhead
    simp
  · rfl

theorem take?_quoted (rest : List Char) : quoted.take? rest =
    some ((quoted? rest).map fun r => (r.1, byteSize rest - byteSize r.2)) := by
  cases hread : quoted? rest with
  | none =>
    have hbody := quoted?_eq_none_iff.mp hread
    by_cases hopen : ∃ body, rest = '"' :: body
    · obtain ⟨body, rfl⟩ := hopen
      have hclose : find? (· == '"') body = none :=
        find?_eq_none fun c hc => by simpa using ne_of_mem_of_not_mem hc (hbody body rfl)
      rw [take?, hclose]
      rfl
    · rw [take?]
      · rfl
      · exact fun body heq => hopen ⟨body, heq⟩
  | some r =>
    obtain ⟨contents, after⟩ := r
    obtain ⟨rfl, hcontents⟩ := quoted?_eq_some_iff.mp hread
    have hclose : find? (· == '"') (contents ++ '"' :: after) = some (byteSize contents) :=
      find?_append (fun c hc => by simpa using ne_of_mem_of_not_mem hc hcontents) rfl after
    have hsize : '"'.utf8Size = 1 := rfl
    rw [List.cons_append, take?, hclose]
    simp [cut?_byteSize, hsize]
    omega

theorem take?_digits (rest : List Char) : digits.take? rest =
    some ((digits? rest).map fun r => (r.1, byteSize rest - byteSize r.2)) := by
  have hsize : ((utf8 rest).takeWhile (isDigitCode ·.toNat)).length =
      byteSize (rest.takeWhile Char.isDigit) := by
    simp only [isAscii_isDigitCode.takeWhile_utf8, length_utf8, isDigitCode_toNat]
  have happ : rest.takeWhile Char.isDigit ++ rest.dropWhile Char.isDigit = rest :=
    List.takeWhile_append_dropWhile
  simp only [take?, digits?, hsize]
  generalize rest.takeWhile Char.isDigit = run at *
  generalize rest.dropWhile Char.isDigit = after at *
  subst happ
  have hname : after.head?.any (isNameCode ·.toNat) = !endsDigits after := by
    cases after with
    | nil => rfl
    | cons c after => simp [endsDigits, isNameCode_toNat]
  rw [isAscii_isNameCode.any_getElem?_utf8, hname, cut?_byteSize]
  cases run with
  | nil => rfl
  | cons c run =>
    rw [if_neg (mt byteSize_eq_zero_iff.mp (List.cons_ne_nil c run))]
    cases hend : endsDigits after with
    | false => simp [hend]
    | true => simp only [hend, if_true, Option.map_some, byteSize_append_sub]; rfl

theorem take?_word (rest : List Char) : word.take? rest =
    some ((word? rest).map fun r => (r.1, byteSize rest - byteSize r.2)) := by
  have happ : rest.takeWhile isWordChar ++ rest.dropWhile isWordChar = rest :=
    List.takeWhile_append_dropWhile
  simp only [take?, word?, getD_find?_not]
  generalize rest.takeWhile isWordChar = run at *
  generalize rest.dropWhile isWordChar = after at *
  subst happ
  rw [cut?_byteSize]
  cases run with
  | nil => rfl
  | cons c run =>
    rw [if_neg (mt byteSize_eq_zero_iff.mp (List.cons_ne_nil c run))]
    simp only [Option.map_some, byteSize_append_sub]

/-- By offsets and bytes a cursor finds what the reader of the token finds. No cut fails. -/
theorem take?_eq (m : Move) (rest : List Char) : m.take? rest =
    some ((m.read? rest).map fun r => (r.1, byteSize rest - byteSize r.2)) := by
  cases m with
  | blanks => rfl
  | char c => exact take?_char c rest
  | quoted => exact take?_quoted rest
  | digits => exact take?_digits rest
  | word => exact take?_word rest

end Move

/-! ## The cursor -/

/-- A source, and the number of its bytes that have been read. -/
structure Cursor where
  source : List Char
  position : Nat

namespace Cursor

def start (source : List Char) : Cursor :=
  ⟨source, 0⟩

/-- The source from the position on. There is none if that lies inside of a character. -/
def rest? (c : Cursor) : Option (List Char) :=
  (cut? c.position c.source).map (·.2)

/-- Read what is asked for, if it stands at the front of the rest, and move behind it. -/
def move? (c : Cursor) (m : Move) : Option (Option (List Char) × Cursor) :=
  c.rest?.bind fun rest =>
    (m.take? rest).map fun
      | some (given, size) => (some given, ⟨c.source, c.position + size⟩)
      | none => (none, c)

def moveAll? (c : Cursor) : List Move → Option Cursor
  | [] => some c
  | m :: moves => (c.move? m).bind fun moved => moved.2.moveAll? moves

/-- The cursor has read a front of the source, and `rest` is left. -/
def Before (c : Cursor) (rest : List Char) : Prop :=
  ∃ front, c.source = front ++ rest ∧ byteSize front = c.position

theorem rest?_eq_some_iff {c : Cursor} {rest : List Char} :
    c.rest? = some rest ↔ c.Before rest := by
  constructor
  · intro h
    obtain ⟨⟨front, back⟩, hcut, rfl⟩ := Option.map_eq_some_iff.mp h
    exact ⟨front, cut?_eq_some_iff.mp hcut⟩
  · rintro ⟨front, happ, hsize⟩
    exact Option.map_eq_some_iff.mpr ⟨(front, rest), cut?_eq_some_iff.mpr ⟨happ, hsize⟩, rfl⟩

theorem Before.isValid {c : Cursor} {rest : List Char} {source : String} (h : c.Before rest)
    (hsource : c.source = source.toList) : (String.Pos.Raw.mk c.position).IsValid source := by
  obtain ⟨front, happ, hsize⟩ := h
  exact isValid_iff.mpr ⟨front, rest, hsource.symm.trans happ, hsize⟩

variable {c : Cursor} {rest : List Char} {m : Move}

theorem move?_of_read?_eq_none (h : c.Before rest) (hread : m.read? rest = none) :
    c.move? m = some (none, c) := by
  rw [move?, rest?_eq_some_iff.mpr h, Option.bind_some, Move.take?_eq, hread]
  rfl

/-- Where the token stands, the cursor moves on to where its reader stops. -/
theorem move?_of_read?_eq_some {given after : List Char} (h : c.Before rest)
    (hread : m.read? rest = some (given, after)) :
    ∃ next, c.move? m = some (some given, next) ∧ next.source = c.source ∧ next.Before after ∧
      c.position ≤ next.position ∧ (m ≠ .blanks → c.position < next.position) := by
  have hmove : c.move? m =
      some (some given, ⟨c.source, c.position + (byteSize rest - byteSize after)⟩) := by
    rw [move?, rest?_eq_some_iff.mpr h, Option.bind_some, Move.take?_eq, hread]
    rfl
  obtain ⟨read, happ, hsize⟩ := h
  obtain ⟨front, rfl, hne⟩ := (Move.takes_of_read? hread).exists_front
  rw [byteSize_append, Nat.add_sub_cancel] at hmove
  refine ⟨_, hmove, rfl, ⟨read ++ front, ?_, ?_⟩, Nat.le_add_right _ _, fun hm => ?_⟩
  · rw [happ, List.append_assoc]
  · rw [byteSize_append, hsize]
  · exact Nat.lt_add_of_pos_right (Nat.pos_of_ne_zero (mt byteSize_eq_zero_iff.mp (hne hm)))

/-- One move is never stuck, and the cursor stands in front of a rest again. -/
theorem exists_move? (h : c.Before rest) (m : Move) :
    ∃ given? next after, c.move? m = some (given?, next) ∧ next.source = c.source ∧
      next.Before after := by
  cases hread : m.read? rest with
  | none => exact ⟨none, c, rest, move?_of_read?_eq_none h hread, rfl, h⟩
  | some r =>
    obtain ⟨next, hmove, hsource, hbefore, -⟩ := move?_of_read?_eq_some h hread
    exact ⟨_, next, _, hmove, hsource, hbefore⟩

/-- No sequence of moves is stuck. -/
theorem exists_moveAll? (h : c.Before rest) (moves : List Move) :
    ∃ next after, c.moveAll? moves = some next ∧ next.source = c.source ∧ next.Before after := by
  induction moves generalizing c rest with
  | nil => exact ⟨c, rest, rfl, rfl, h⟩
  | cons m moves ih =>
    obtain ⟨given?, middle, between, hmove, hsource, hmiddle⟩ := exists_move? h m
    obtain ⟨next, after, hmoves, hsource', hnext⟩ := ih hmiddle
    refine ⟨next, after, ?_, hsource'.trans hsource, hnext⟩
    rw [moveAll?, hmove]
    exact hmoves

/-- Every sequence of moves goes through. It leaves the cursor between two characters of the
    source or at an end, so there is a rest. One more move never goes back. It reads what the
    reader of the token reads, hands out what stands there, and leaves what stands behind it; if
    it is not to read blanks, it goes at least one byte on. A move that finds nothing leaves the
    cursor where it is. So each expression that the descent reads shortens the rest, and under
    every limit and on every level its functions end with a fuel that only depends on the length
    of the rest. -/
theorem moves_forward (source : String) :
    (∀ moves, ∃ cursor rest, (start source.toList).moveAll? moves = some cursor ∧
      cursor.position ≤ source.utf8ByteSize ∧
      (String.Pos.Raw.mk cursor.position).IsValid source ∧
      cursor.rest? = some rest ∧
      ∀ m : Move, ∃ given? next after, cursor.move? m = some (given?, next) ∧
        next.rest? = some after ∧ cursor.position ≤ next.position ∧
        m.read? rest = given?.map (·, after) ∧
        (given? = none → next = cursor) ∧
        ∀ given, given? = some given →
          m.Takes given rest after ∧ (m ≠ .blanks → cursor.position < next.position)) ∧
    (∀ limit fuel level e rest, readExpression limit fuel level source.toList = .read e rest →
      Shortens rest source.toList) ∧
    (∀ limit fuel level, 2 * source.length + 1 < fuel →
      readExpression limit fuel level source.toList ≠ .outOfFuel ∧
      (∀ e, readCalls limit fuel level e source.toList ≠ .outOfFuel) ∧
      ∀ args, readArguments limit fuel level args source.toList ≠ .outOfFuel) ∧
    ∀ limit fuel, 2 * source.length < fuel →
      (readExpression limit fuel 0 source.toList).result? = some (leading limit source.toList) := by
  have hlength : source.toList.length = source.length := String.length_toList
  refine ⟨fun moves => ?_, ?_, ?_, ?_⟩
  · have hstart : (start source.toList).Before source.toList := ⟨[], rfl, rfl⟩
    obtain ⟨cursor, rest, hmoves, hsource, hbefore⟩ := exists_moveAll? hstart moves
    have hvalid := hbefore.isValid hsource
    refine ⟨cursor, rest, hmoves, hvalid.le_rawEndPos, hvalid, rest?_eq_some_iff.mpr hbefore, ?_⟩
    intro m
    cases hread : m.read? rest with
    | none =>
      exact ⟨none, cursor, rest, move?_of_read?_eq_none hbefore hread,
        rest?_eq_some_iff.mpr hbefore, Nat.le_refl _, rfl, fun _ => rfl, nofun⟩
    | some r =>
      obtain ⟨given, after⟩ := r
      obtain ⟨next, hmove, -, hnext, hle, hlt⟩ := move?_of_read?_eq_some hbefore hread
      refine ⟨some given, next, after, hmove, rest?_eq_some_iff.mpr hnext, hle, rfl, nofun, ?_⟩
      rintro _ ⟨⟩
      exact ⟨Move.takes_of_read? hread, hlt⟩
  · intro limit fuel level e rest hread
    exact (shortens_of_readExpression hread).1
  · intro limit fuel level hfuel
    rw [← hlength] at hfuel
    exact ⟨readExpression_ne_outOfFuel (by omega), fun e => readCalls_ne_outOfFuel (by omega),
      fun args => readArguments_ne_outOfFuel hfuel⟩
  · intro limit fuel hfuel
    exact result?_readExpression (hlength.symm ▸ hfuel)

/-- A word of one character of two bytes, a blank of three bytes, and a quoted text. -/
def accented : String := "é\u2003\"ü\""

/-- Behind the word and the blank there are five bytes of the source in front of the cursor, and
    the text in quotes is read from there. The descent reads the word and leaves less. -/
theorem moves_forward_accented :
    ∃ cursor, (start accented.toList).moveAll? [.word, .blanks] = some cursor ∧
      cursor.position = 5 ∧ (String.Pos.Raw.mk cursor.position).IsValid accented ∧
      (∃ next, cursor.move? .quoted = some (some ['ü'], next) ∧
        cursor.position < next.position) ∧
      Shortens ['"', 'ü', '"'] accented.toList ∧
      readExpression 1 12 7 accented.toList ≠ .outOfFuel ∧
      (readExpression 1 12 0 accented.toList).result? = some (leading 1 accented.toList) := by
  obtain ⟨hmoves, hshort, hends, hleading⟩ := moves_forward accented
  have hchars : accented.toList = ['é', '\u2003', '"', 'ü', '"'] := by decide
  have hlength : accented.length = 5 := by decide
  obtain ⟨cursor, rest, hcursor, -, hvalid, hrest, hnext⟩ := hmoves [.word, .blanks]
  have hwhere : (start accented.toList).moveAll? [.word, .blanks] =
      some ⟨accented.toList, 5⟩ := by
    rw [hchars]
    rfl
  obtain rfl : ⟨accented.toList, 5⟩ = cursor := Option.some.inj (hwhere.symm.trans hcursor)
  have hread : readExpression 1 12 0 accented.toList = .read (.word "é") ['"', 'ü', '"'] := by
    rw [hchars]
    rfl
  have hquoted : (⟨accented.toList, 5⟩ : Cursor).rest? = some ['"', 'ü', '"'] := by
    rw [hchars]
    rfl
  obtain rfl : ['"', 'ü', '"'] = rest := Option.some.inj (hquoted.symm.trans hrest)
  obtain ⟨given?, next, after, hmove, -, -, hfound, -, htakes⟩ := hnext .quoted
  obtain ⟨given, rfl, hgiven⟩ := Option.map_eq_some_iff.mp hfound.symm
  obtain ⟨rfl, -⟩ := Prod.mk.inj hgiven
  refine ⟨_, hcursor, rfl, hvalid, ⟨next, hmove, (htakes _ rfl).2 (by decide)⟩,
    hshort 1 12 0 _ _ hread, (hends 1 12 7 ?_).1, hleading 1 12 ?_⟩ <;> rw [hlength] <;> decide

end Cursor

end Egg.Parse
