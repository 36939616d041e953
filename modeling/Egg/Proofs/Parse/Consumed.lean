-- SUMMARY: What a reader remembers spells the text behind it, and lies within the limit.
import Egg.Proofs.Parse.Reading

/-!
# The text behind a reader

At every place of a source, what the reader remembers accounts for all the text
that it has read: the open argument lists for the text up to the last bracket or
comma, and the focus for what comes after it. Every move keeps this, so it holds
where a reading ends.
-/

namespace Egg.Parse

open Text Grammar

/-! ## Open argument lists -/

/-- The text `s` stands between the bracket of an open list and the place where its
    next argument starts, and spells the arguments `args`. -/
inductive SpellsOpen : List Char → List Expr → Prop where
  | none : SpellsOpen [] []
  | some {s args blanks} : SpellsArgs s args → Blanks blanks →
      SpellsOpen (s ++ blanks ++ [',']) args

/-- The next argument of an open list joins those before it. -/
theorem SpellsOpen.snoc {t s : List Char} {args : List Expr} {arg : Expr}
    (h : SpellsOpen t args) (hs : Spells s arg) : SpellsArgs (t ++ s) (args ++ [arg]) := by
  cases h with
  | none => exact .one hs
  | some ht hb => simpa using ht.snoc hb hs

/-- The text `s` opens the lists `frames`. Each list, if it were closed at once,
    would lie within the limit. -/
inductive Opens (limit : Nat) : List Char → List Frame → Prop where
  | nil : Opens limit [] []
  | cons {s frames t blanks u} (frame : Frame) : Opens limit s frames →
      Spells t frame.operator → Blanks blanks → SpellsOpen u frame.args.reverse →
      frames.length + frame.close.depth ≤ limit →
      Opens limit (s ++ t ++ blanks ++ '(' :: u) (frame :: frames)

/-- The text `s` is what a reader with these frames and this focus has read. -/
inductive Consumed (limit : Nat) : List Char → List Frame → Focus → Prop where
  | missing {s frames blanks} : Opens limit s frames → Blanks blanks →
      Consumed limit (s ++ blanks) frames .missing
  | complete {s frames t e} : Opens limit s frames → Spells t e →
      frames.length + e.depth ≤ limit →
      Consumed limit (s ++ t) frames (.complete e)

theorem consumed_nil (limit : Nat) : Consumed limit [] [] .missing :=
  .missing .nil blanks_nil

/-! ## Preservation -/

/-- The argument `arg` and a comma after it make the open list `frame` one longer. -/
theorem SpellsOpen.push {t s blanks : List Char} {frame : Frame} {arg : Expr}
    (h : SpellsOpen t frame.args.reverse) (hs : Spells s arg) (hb : Blanks blanks) :
    SpellsOpen (t ++ s ++ blanks ++ [',']) (frame.push arg).args.reverse := by
  simpa [Frame.push] using SpellsOpen.some (h.snoc hs) hb

/-- The argument `arg` and a bracket after it close the open list `frame`. -/
theorem spells_close_push {s t u blanks blanks' : List Char} {frame : Frame} {arg : Expr}
    (hop : Spells s frame.operator) (hb : Blanks blanks) (hargs : SpellsOpen t frame.args.reverse)
    (hs : Spells u arg) (hb' : Blanks blanks') :
    Spells (s ++ blanks ++ '(' :: (t ++ u) ++ blanks' ++ [')']) (frame.push arg).close := by
  simpa [Frame.push, Frame.close] using Spells.call hop hb (hargs.snoc hs) hb'

theorem depth_of_spellsAtom {s : List Char} {e : Expr} (h : SpellsAtom s e) : e.depth = 1 := by
  cases h <;> rfl

theorem depth_close_push (frame : Frame) (arg : Expr) :
    (frame.push arg).close.depth = max frame.close.depth (arg.depth + 1) := by
  simp [Frame.push, Frame.close, Expr.depth, Expr.depthArgs_append, Expr.depthArgs, Nat.max_assoc]

/-- A list within the limit stays there with an argument that lies within it. -/
theorem fits_push {limit : Nat} {frames : List Frame} {frame : Frame} {arg : Expr}
    (hframe : frames.length + frame.close.depth ≤ limit)
    (harg : (frame :: frames).length + arg.depth ≤ limit) :
    frames.length + (frame.push arg).close.depth ≤ limit := by
  rw [List.length_cons] at harg
  rw [depth_close_push]
  omega

variable {limit : Nat} {frames frames' : List Frame} {focus focus' : Focus}
  {s read rest : List Char} {what : Except Fault Expr}

theorem Consumed.of_moves (hc : Consumed limit s frames focus)
    (h : Moves limit frames focus read frames' focus' rest) :
    Consumed limit (s ++ read) frames' focus' := by
  cases h with
  | atom hlt hb ha _ =>
    cases hc with
    | missing hopens hb' =>
      have hdepth : frames.length + 1 ≤ limit := hlt
      rw [← depth_of_spellsAtom ha] at hdepth
      simpa using Consumed.complete hopens (.atom (hb'.append hb) ha) hdepth
  | callNone hb hb' =>
    cases hc with
    | complete hopens hs hdepth =>
      simpa using Consumed.complete hopens (.callNone hs hb hb')
        (by simpa [Expr.depth, Expr.depthArgs] using hdepth)
  | @openCall _ e _ _ _ hb hb' =>
    cases hc with
    | complete hopens hs hdepth =>
      have hopens' := hopens.cons ⟨e, []⟩ hs hb .none
        (by simpa [Frame.close, Expr.depth, Expr.depthArgs] using hdepth)
      simpa using Consumed.missing hopens' hb'
  | @comma frame frames e _ _ hb =>
    cases hc with
    | complete hopens hs hdepth =>
      cases hopens with
      | cons _ hopens hop hb' hargs hframe =>
        have hopens' := hopens.cons (frame.push e) hop hb' (hargs.push hs hb)
          (fits_push hframe hdepth)
        simpa using Consumed.missing hopens' blanks_nil
  | @close frame frames e _ _ hb =>
    cases hc with
    | complete hopens hs hdepth =>
      cases hopens with
      | cons _ hopens hop hb' hargs hframe =>
        simpa using Consumed.complete hopens (spells_close_push hop hb' hargs hs hb)
          (fits_push hframe hdepth)

/-- Where a reading ends, the text behind the reader is spelled by what it then
    remembers. -/
theorem Reads.exists_halts (h : Reads limit frames focus read what rest)
    (hc : Consumed limit s frames focus) :
    ∃ t frames' focus' u, s ++ read = t ++ u ∧ Consumed limit t frames' focus' ∧
      Halts limit frames' focus' u what rest := by
  induction h generalizing s with
  | halt h => exact ⟨_, _, _, _, rfl, hc, h⟩
  | move h _ ih =>
    obtain ⟨t, frames', focus', u, happ, hc', h'⟩ := ih (hc.of_moves h)
    exact ⟨t, frames', focus', u, by rw [← happ, List.append_assoc], hc', h'⟩

end Egg.Parse
