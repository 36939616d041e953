-- SUMMARY: The reader does what a recursive descent does, which needs no more rounds than the source allows.
import Egg.Proofs.Parse.Reading

/-!
# Recursive descent

The grammar can also be read by three functions that call each other: one for an expression, one
for the calls behind it, and one for the arguments of a call. They go round in loops and into
each other, and none of them counts its rounds. Here they have a fuel for that. As every
expression takes something of the source, a fuel of twice the length of the source is never used
up, whatever the limit is. What comes out is what the reader with its stack reads.
-/

namespace Egg.Parse

open Text Grammar

/-- What a function of the descent comes to. -/
inductive Reading (α : Type) where
  /-- It has read `a`, and this is left of the source. -/
  | read (a : α) (rest : List Char)
  | stopped (why : Stop)
  | outOfFuel

namespace Reading

variable {α β γ : Type}

/-- Read on behind what was read. -/
def andThen (r : Reading α) (next : α → List Char → Reading β) : Reading β :=
  match r with
  | read a rest => next a rest
  | stopped why => stopped why
  | outOfFuel => outOfFuel

theorem andThen_eq_read_iff {r : Reading α} {next : α → List Char → Reading β} {b : β}
    {rest : List Char} : r.andThen next = read b rest ↔
      ∃ a rest', r = read a rest' ∧ next a rest' = read b rest := by
  cases r with
  | read a rest' => exact ⟨fun h => ⟨a, rest', rfl, h⟩, fun ⟨_, _, heq, h⟩ => by cases heq; exact h⟩
  | stopped why => exact ⟨nofun, nofun⟩
  | outOfFuel => exact ⟨nofun, nofun⟩

theorem andThen_ne_outOfFuel {r : Reading α} {next : α → List Char → Reading β}
    (hr : r ≠ outOfFuel) (hnext : ∀ a rest, r = read a rest → next a rest ≠ outOfFuel) :
    r.andThen next ≠ outOfFuel := by
  cases r with
  | read a rest => exact hnext a rest rfl
  | stopped why => nofun
  | outOfFuel => exact absurd rfl hr

/-- What was read, or why reading stopped. -/
def result? : Reading α → Option (Except Stop (α × List Char))
  | read a rest => some (.ok (a, rest))
  | stopped why => some (.error why)
  | outOfFuel => none

/-- The result is that of going on behind what was read, or tells why reading stopped. -/
def Gives (r : Reading α) (next : α → List Char → Except Stop γ) (result : Except Stop γ) : Prop :=
  match r with
  | read a rest => result = next a rest
  | stopped why => result = .error why
  | outOfFuel => True

theorem Gives.andThen {r : Reading α} {more : α → List Char → Reading β}
    {next : α → List Char → Except Stop γ} {next' : β → List Char → Except Stop γ}
    {result : Except Stop γ} (h : r.Gives next result)
    (hmore : ∀ a rest, r = read a rest → (more a rest).Gives next' (next a rest)) :
    (r.andThen more).Gives next' result := by
  cases r with
  | read a rest =>
    obtain rfl : result = next a rest := h
    exact hmore a rest rfl
  | stopped why => exact h
  | outOfFuel => trivial

end Reading

/-! ## The three functions -/

mutual
/-- Read an expression, inside of so many argument lists. -/
def readExpression (limit : Nat) : Nat → Nat → List Char → Reading Expr
  | 0, _, _ => .outOfFuel
  | fuel + 1, level, source =>
    if level < limit then
      match atom? (skipBlanks source) with
      | some (e, rest) => readCalls limit fuel level e rest
      | none => .stopped ⟨.noExpression, skipBlanks source⟩
    else .stopped ⟨.tooDeep limit, source⟩

/-- Read the calls of the expression `e`, one after the other. -/
def readCalls (limit : Nat) : Nat → Nat → Expr → List Char → Reading Expr
  | 0, _, _, _ => .outOfFuel
  | fuel + 1, level, e, source =>
    match skipBlanks source with
    | '(' :: rest =>
      match skipBlanks rest with
      | ')' :: rest => readCalls limit fuel level (.apply e []) rest
      | rest =>
        (readArguments limit fuel (level + 1) [] rest).andThen fun args rest =>
          readCalls limit fuel level (.apply e args) rest
    | rest => .read e rest

/-- Read one more argument behind `args`, and go on up to the closing bracket. -/
def readArguments (limit : Nat) : Nat → Nat → List Expr → List Char → Reading (List Expr)
  | 0, _, _, _ => .outOfFuel
  | fuel + 1, level, args, source =>
    (readExpression limit fuel level source).andThen fun arg rest =>
      match skipBlanks rest with
      | ',' :: rest => readArguments limit fuel level (args ++ [arg]) rest
      | ')' :: rest => .read (args ++ [arg]) rest
      | rest => .stopped ⟨.noSeparator, rest⟩
end

/-! ## Progress -/

/-- The text `rest` is the end of `source`, and not all of it. -/
def Shortens (rest source : List Char) : Prop :=
  ∃ front, front ≠ [] ∧ source = front ++ rest

theorem Shortens.length_lt {rest source : List Char} (h : Shortens rest source) :
    rest.length < source.length := by
  obtain ⟨front, hne, rfl⟩ := h
  rw [List.length_append]
  exact Nat.lt_add_of_pos_left (List.length_pos_iff.mpr hne)

theorem Shortens.of_suffix {rest middle source : List Char} (h : Shortens rest middle)
    (hsuffix : middle <:+ source) : Shortens rest source := by
  obtain ⟨front, hne, rfl⟩ := h
  obtain ⟨front', rfl⟩ := hsuffix
  exact ⟨front' ++ front, by simp [hne], by simp⟩

theorem Shortens.suffix {rest source : List Char} (h : Shortens rest source) : rest <:+ source := by
  obtain ⟨front, -, rfl⟩ := h
  exact ⟨front, rfl⟩

theorem Shortens.suffix_trans {rest middle source : List Char} (h : rest <:+ middle)
    (hshort : Shortens middle source) : Shortens rest source := by
  obtain ⟨front, hne, rfl⟩ := hshort
  obtain ⟨front', rfl⟩ := h
  exact ⟨front ++ front', by simp [hne], by simp⟩

theorem skipBlanks_suffix (source : List Char) : skipBlanks source <:+ source :=
  List.dropWhile_suffix isBlank

theorem stopsAt_skipBlanks (source : List Char) : StopsAt isBlank (skipBlanks source) := by
  obtain ⟨-, -, -, h⟩ := skipBlanks_eq_iff.mp (Eq.refl (skipBlanks source))
  exact h

theorem shortens_of_skipBlanks {source rest : List Char} {c : Char}
    (h : skipBlanks source = c :: rest) : Shortens rest source := by
  have hcons : Shortens rest (c :: rest) := ⟨[c], by simp, rfl⟩
  rw [← h] at hcons
  exact hcons.of_suffix (skipBlanks_suffix source)

theorem shortens_of_atom? {source rest : List Char} {e : Expr}
    (h : atom? (skipBlanks source) = some (e, rest)) : Shortens rest source := by
  obtain ⟨s, happ, hs, -⟩ := atom?_eq_some_iff.mp h
  obtain ⟨c, s', rfl, -⟩ := hs.exists_cons
  exact Shortens.of_suffix ⟨c :: s', by simp, happ⟩ (skipBlanks_suffix source)

theorem stopsAt_of_ne {c : Char} {source : List Char} (h : ∀ rest, source = c :: rest → False) :
    StopsAt (· == c) source := by
  refine Classical.byContradiction fun hstop => ?_
  obtain ⟨rest, hrest⟩ := exists_cons_of_not_stopsAt hstop
  exact h rest hrest

variable {limit : Nat}

mutual
/-- An expression takes something of the source, and leaves no call behind. -/
theorem shortens_of_readExpression : ∀ {fuel level : Nat} {source rest : List Char} {e : Expr},
    readExpression limit fuel level source = .read e rest →
      Shortens rest source ∧ StopsAt isBlank rest ∧ StopsAt (· == '(') rest
  | 0, _, _, _, _, h => nomatch h
  | fuel + 1, level, source, rest, e, h => by
    rw [readExpression] at h
    split at h
    · split at h
      · next atom rest' hatom =>
        obtain ⟨hsuffix, hstops⟩ := suffix_of_readCalls h
        exact ⟨(shortens_of_atom? hatom).suffix_trans hsuffix, hstops⟩
      · cases h
    · cases h

theorem suffix_of_readCalls : ∀ {fuel level : Nat} {source rest : List Char} {e e' : Expr},
    readCalls limit fuel level e source = .read e' rest →
      rest <:+ source ∧ StopsAt isBlank rest ∧ StopsAt (· == '(') rest
  | 0, _, _, _, _, _, h => nomatch h
  | fuel + 1, level, source, rest, e, e', h => by
    rw [readCalls] at h
    split at h
    · next opened hopen =>
      have hopened := shortens_of_skipBlanks hopen
      split at h
      · next closed hclose =>
        obtain ⟨hsuffix, hstops⟩ := suffix_of_readCalls h
        exact ⟨hsuffix.trans ((shortens_of_skipBlanks hclose).suffix.trans hopened.suffix), hstops⟩
      · obtain ⟨args, behind, hargs, h⟩ := Reading.andThen_eq_read_iff.mp h
        obtain ⟨hsuffix, hstops⟩ := suffix_of_readCalls h
        have hbehind := (shortens_of_readArguments hargs).of_suffix (skipBlanks_suffix opened)
        exact ⟨hsuffix.trans (hbehind.suffix.trans hopened.suffix), hstops⟩
    · next hnone =>
      cases h
      refine ⟨skipBlanks_suffix source, stopsAt_skipBlanks source, stopsAt_of_ne hnone⟩

theorem shortens_of_readArguments : ∀ {fuel level : Nat} {source rest : List Char}
    {args args' : List Expr},
    readArguments limit fuel level args source = .read args' rest → Shortens rest source
  | 0, _, _, _, _, _, h => nomatch h
  | fuel + 1, level, source, rest, args, args', h => by
    rw [readArguments] at h
    obtain ⟨arg, behind, harg, h⟩ := Reading.andThen_eq_read_iff.mp h
    have hbehind := (shortens_of_readExpression harg).1
    split at h
    · next more hcomma =>
      have hmore := (shortens_of_readArguments h).of_suffix (shortens_of_skipBlanks hcomma).suffix
      exact hmore.of_suffix hbehind.suffix
    · next closed hclose =>
      cases h
      exact (shortens_of_skipBlanks hclose).of_suffix hbehind.suffix
    · cases h
end

/-! ## A fuel that is not used up -/

mutual
theorem readExpression_ne_outOfFuel : ∀ {fuel level : Nat} {source : List Char},
    2 * source.length < fuel → readExpression limit fuel level source ≠ .outOfFuel
  | 0, _, _, h => absurd h (Nat.not_lt_zero _)
  | fuel + 1, level, source, h => by
    rw [readExpression]
    split
    · split
      · next e rest hatom =>
        have := (shortens_of_atom? hatom).length_lt
        exact readCalls_ne_outOfFuel (by omega)
      · nofun
    · nofun

theorem readCalls_ne_outOfFuel : ∀ {fuel level : Nat} {source : List Char} {e : Expr},
    2 * source.length < fuel → readCalls limit fuel level e source ≠ .outOfFuel
  | 0, _, _, _, h => absurd h (Nat.not_lt_zero _)
  | fuel + 1, level, source, e, h => by
    rw [readCalls]
    split
    · next opened hopen =>
      have hopened := (shortens_of_skipBlanks hopen).length_lt
      split
      · next closed hclose =>
        have hclosed := (shortens_of_skipBlanks hclose).length_lt
        exact readCalls_ne_outOfFuel (by omega)
      · have hle := length_skipBlanks_le opened
        refine Reading.andThen_ne_outOfFuel (readArguments_ne_outOfFuel (by omega)) ?_
        intro args rest hargs
        have := (shortens_of_readArguments hargs).length_lt
        exact readCalls_ne_outOfFuel (by omega)
    · nofun

theorem readArguments_ne_outOfFuel : ∀ {fuel level : Nat} {source : List Char}
    {args : List Expr},
    2 * source.length + 1 < fuel → readArguments limit fuel level args source ≠ .outOfFuel
  | 0, _, _, _, h => absurd h (Nat.not_lt_zero _)
  | fuel + 1, level, source, args, h => by
    rw [readArguments]
    refine Reading.andThen_ne_outOfFuel (readExpression_ne_outOfFuel (by omega)) ?_
    intro arg rest harg
    have hrest := (shortens_of_readExpression harg).1.length_lt
    split
    · next more hcomma =>
      have hmore := (shortens_of_skipBlanks hcomma).length_lt
      exact readArguments_ne_outOfFuel (by omega)
    · nofun
    · nofun
end

/-! ## The reader with its stack -/

/-- Blanks in front do not matter to a reader that has a complete expression. -/
theorem run_complete_skipBlanks (frames : List Frame) (e : Expr) (source : List Char) :
    State.run limit ⟨frames, .complete e, skipBlanks source⟩ =
      State.run limit ⟨frames, .complete e, source⟩ := by
  have hskip : skipBlanks (skipBlanks source) = skipBlanks source :=
    skipBlanks_append blanks_nil (stopsAt_skipBlanks source)
  rw [State.run_eq, State.run_eq limit ⟨frames, .complete e, source⟩]
  simp only [State.step, proceed, hskip]

theorem openCall_of_close {frames : List Frame} {operator : Expr} {source rest : List Char}
    (h : skipBlanks source = ')' :: rest) :
    openCall frames operator source = ⟨frames, .complete (.apply operator []), rest⟩ := by
  simp only [openCall, h]

theorem openCall_of_ne {frames : List Frame} {operator : Expr} {source : List Char}
    (h : ∀ rest, skipBlanks source = ')' :: rest → False) :
    openCall frames operator source =
      ⟨⟨operator, []⟩ :: frames, .missing, skipBlanks source⟩ := by
  unfold openCall
  split
  · next rest hclose => exact absurd hclose (h rest)
  · rfl

mutual
/-- The reader comes to where the expression has been read, or it stops for the same reason. -/
theorem gives_readExpression : ∀ (fuel : Nat) (frames : List Frame) (source : List Char),
    (readExpression limit fuel frames.length source).Gives
      (fun e rest => State.run limit ⟨frames, .complete e, rest⟩)
      (State.run limit ⟨frames, .missing, source⟩)
  | 0, _, _ => trivial
  | fuel + 1, frames, source => by
    rw [readExpression, State.run_eq]
    split
    · next hlt =>
      simp only [State.step, start_of_lt hlt]
      cases atom? (skipBlanks source) with
      | some found => exact gives_readCalls fuel frames found.1 found.2
      | none => rfl
    · next hge =>
      simp only [State.step, start_of_le (Nat.not_lt.mp hge)]
      rfl

theorem gives_readCalls : ∀ (fuel : Nat) (frames : List Frame) (e : Expr) (source : List Char),
    (readCalls limit fuel frames.length e source).Gives
      (fun e rest => State.run limit ⟨frames, .complete e, rest⟩)
      (State.run limit ⟨frames, .complete e, source⟩)
  | 0, _, _, _ => trivial
  | fuel + 1, frames, e, source => by
    rw [readCalls]
    split
    · next opened hopen =>
      have hstep : State.run limit ⟨frames, .complete e, source⟩ =
          State.run limit (openCall frames e opened) := by
        rw [State.run_eq]
        simp only [State.step, proceed, hopen]
      rw [hstep]
      split
      · next hclose =>
        rw [openCall_of_close hclose]
        exact gives_readCalls fuel frames _ _
      · next hclose =>
        rw [openCall_of_ne hclose]
        exact (gives_readArguments fuel frames e [] _).andThen fun args rest _ =>
          gives_readCalls fuel frames (.apply e args) rest
    · exact (run_complete_skipBlanks frames e source).symm

theorem gives_readArguments : ∀ (fuel : Nat) (frames : List Frame) (operator : Expr)
    (args : List Expr) (source : List Char),
    (readArguments limit fuel (frames.length + 1) args source).Gives
      (fun args rest => State.run limit ⟨frames, .complete (.apply operator args), rest⟩)
      (State.run limit ⟨⟨operator, args.reverse⟩ :: frames, .missing, source⟩)
  | 0, _, _, _, _ => trivial
  | fuel + 1, frames, operator, args, source => by
    rw [readArguments]
    refine (gives_readExpression fuel (⟨operator, args.reverse⟩ :: frames) source).andThen ?_
    intro arg rest harg
    obtain ⟨-, hblank, hopen⟩ := shortens_of_readExpression harg
    have hskip : skipBlanks rest = rest := skipBlanks_append blanks_nil hblank
    rw [hskip]
    split
    · next more =>
      have hmove : Moves limit (⟨operator, args.reverse⟩ :: frames) (.complete arg) [',']
          (⟨operator, arg :: args.reverse⟩ :: frames) .missing more := .comma blanks_nil
      have hmore := gives_readArguments fuel frames operator (args ++ [arg]) more
      rw [List.reverse_append] at hmore
      exact run_eq_of_moves hmove ▸ hmore
    · next closed =>
      have hmove : Moves limit (⟨operator, args.reverse⟩ :: frames) (.complete arg) [')']
          frames (.complete (.apply operator (arg :: args.reverse).reverse)) closed :=
        .close blanks_nil
      refine (run_eq_of_moves hmove).trans ?_
      rw [List.reverse_cons, List.reverse_reverse]
    · next hcomma hclose =>
      have hstop : StopsAt (fun c => c == '(' || c == ',' || c == ')') rest := by
        intro c hc
        simp [hopen c hc, stopsAt_of_ne hcomma c hc, stopsAt_of_ne hclose c hc]
      exact run_eq_of_reads (.halt (.noSeparator blanks_nil hblank hstop))
end

/-- With a fuel that is not used up, the descent reads the leading expression of a source. -/
theorem result?_readExpression {fuel : Nat} {source : List Char} (h : 2 * source.length < fuel) :
    (readExpression limit fuel 0 source).result? = some (leading limit source) := by
  have hgives : (readExpression limit fuel 0 source).Gives
      (fun e rest => State.run limit ⟨[], .complete e, rest⟩) (leading limit source) :=
    gives_readExpression fuel [] source
  cases hread : readExpression limit fuel 0 source with
  | read e rest =>
    obtain ⟨-, hblank, hopen⟩ := shortens_of_readExpression hread
    rw [hread] at hgives
    have hdone : State.run limit ⟨[], .complete e, rest⟩ = .ok (e, rest) :=
      run_eq_of_reads (.halt (.finished blanks_nil hblank hopen))
    exact congrArg some (hgives.trans hdone).symm
  | stopped why =>
    rw [hread] at hgives
    exact congrArg some (Eq.symm hgives)
  | outOfFuel => exact absurd hread (readExpression_ne_outOfFuel h)

end Egg.Parse
