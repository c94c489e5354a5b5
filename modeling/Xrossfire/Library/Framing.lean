import Mathlib

/-! Messages in a stream that arrives in pieces. A reader passes what it has to a
consumer, which takes the first message of it or nothing; what the consumer does
not take has to be passed on again. -/
namespace Xrossfire.Library

/-- How the messages of a stream are told apart: the length of the first, once it is there as a whole. -/
structure Framing (α : Type) where
  size : List α → Option Nat
  bounds : ∀ items n, size items = some n → 0 < n ∧ n ≤ items.length
  stable : ∀ items more n, size items = some n → size (items ++ more) = some n

/-- A piece is read; items that were read, and `others` behind them, are passed to the consumer; the reader
gives up. -/
inductive Passage (α : Type)
  | read (items : List α)
  | present (items others : List α)
  | fail
deriving DecidableEq

namespace Framing
variable {α : Type} (f : Framing α)

def after (left : List α) : Passage α → List α
  | .read items => left ++ items
  | .present items others => left.drop ((f.size (items ++ others)).getD 0)
  | .fail => left

def unconsumed (trace : List (Passage α)) : List α := trace.foldl f.after []

/-- What is passed to the consumer is what was read and not consumed, and nothing else; a part of a message
does not make the reader give up. -/
structure Seamless (trace : List (Passage α)) : Prop where
  presented : ∀ before items others after, trace = before ++ .present items others :: after →
    others = [] ∧ items = f.unconsumed before
  kept : ∀ before items others after, trace = before ++ .present items others :: after →
    f.size (items ++ others) = none → items ≠ [] → after.head? ≠ some .fail

def Whole (piece : List α) : Prop := (f.size piece).getD 0 = piece.length

def Segmented (pieces : List (List α)) : Prop :=
  (∀ piece ∈ pieces.dropLast, f.Whole piece) ∧ ∀ piece ∈ pieces.getLast?, f.size piece = none → piece = []

def messages (pieces : List (List α)) : List (List α) :=
  pieces.filterMap (fun piece => (f.size piece).map piece.take)

def firsts : Nat → List α → List (List α)
  | 0,_ => []
  | n + 1,stream =>
    match f.size stream with
    | none => []
    | some k => stream.take k :: firsts n (stream.drop k)

/-- The traces of a reader that passes on each piece by itself, and gives up for lack of a message. -/
inductive Piecewise : List (Passage α) → Prop
  | nil : Piecewise []
  | exchange {trace : List (Passage α)} {items others : List α} (before : Piecewise trace)
      (whole : f.size (items ++ others) ≠ none) : Piecewise (trace ++ [.read items,.present items others])
  | lose {trace : List (Passage α)} {items others : List α} (before : Piecewise trace)
      (part : f.size (items ++ others) = none) : Piecewise (trace ++ [.read items,.present items others,.fail])
  | fail {trace : List (Passage α)} (before : Piecewise trace) : Piecewise (trace ++ [.fail])

end Framing

namespace Passage
variable {α : Type}

def piece : Passage α → Option (List α)
  | .read items => some items
  | _ => none

def bare : Passage α → Bool
  | .present _ others => others.isEmpty
  | _ => true

end Passage

def pieces {α : Type} (trace : List (Passage α)) : List (List α) := trace.filterMap Passage.piece

namespace Framing
variable {α : Type} {f : Framing α} {trace : List (Passage α)} {items others : List α}

theorem whole_begins {piece : List α} (whole : f.Whole piece) (none : f.size piece = none) : piece = [] := by
  rw [Whole,none,Option.getD_none] at whole
  exact List.eq_nil_of_length_eq_zero whole.symm

theorem segmented_snoc (pieces : List (List α)) (piece : List α) : f.Segmented (pieces ++ [piece]) ↔
    (∀ other ∈ pieces, f.Whole other) ∧ (f.size piece = none → piece = []) := by
  simp [Segmented]

theorem segmented_whole {pieces : List (List α)} (whole : ∀ piece ∈ pieces, f.Whole piece) : f.Segmented pieces :=
  ⟨fun piece member => whole piece (List.dropLast_subset _ member),
    fun piece last none => whole_begins (whole piece (List.mem_of_mem_getLast? last)) none⟩

theorem segmented_tail {piece : List α} {pieces : List (List α)} (segmented : f.Segmented (piece :: pieces))
    (more : pieces ≠ []) : f.Whole piece ∧ f.Segmented pieces := by
  obtain ⟨whole,last⟩ := segmented
  rw [List.dropLast_cons_of_ne_nil more] at whole
  refine ⟨whole piece List.mem_cons_self,fun other member => whole other (List.mem_cons_of_mem _ member),?_⟩
  intro other here
  apply last other
  rw [List.getLast?_cons,Option.mem_some_iff]
  rw [Option.mem_def.mp here,Option.getD_some]

/-- Where an event of a longer trace is. -/
theorem snoc_split {e x : Passage α} {before after : List (Passage α)} (same : trace ++ [e] = before ++ x :: after) :
    after = [] ∧ before = trace ∧ x = e ∨ ∃ after', after = after' ++ [e] ∧ trace = before ++ x :: after' := by
  rcases List.eq_nil_or_concat after with rfl | ⟨after',last,rfl⟩
  · obtain ⟨rfl,single⟩ := List.append_inj' same rfl
    cases single
    exact Or.inl ⟨rfl,rfl,rfl⟩
  · rw [List.concat_eq_append,← List.cons_append,← List.append_assoc] at same
    obtain ⟨rfl,single⟩ := List.append_inj' same rfl
    cases single
    exact Or.inr ⟨after',List.concat_eq_append,rfl⟩

theorem head_snoc {e x : Passage α} {after : List (Passage α)} (head : (after ++ [e]).head? = some x) :
    after = [] ∧ x = e ∨ after.head? = some x := by
  cases after with
  | nil => exact Or.inl ⟨rfl,(Option.some.inj head).symm⟩
  | cons first rest => exact Or.inr head

/-- What one more event asks for. -/
theorem seamless_snoc (e : Passage α) : f.Seamless (trace ++ [e]) ↔ f.Seamless trace ∧
    (∀ items others, e = .present items others → others = [] ∧ items = f.unconsumed trace) ∧
      (e = .fail → ∀ before items others, trace = before ++ [Passage.present items others] →
        f.size (items ++ others) = none → items = []) := by
  constructor
  · rintro ⟨presented,kept⟩
    refine ⟨⟨?_,?_⟩,?_,?_⟩
    · rintro before items others after rfl
      exact presented before items others (after ++ [e]) (by simp)
    · rintro before items others after rfl part some head
      apply kept before items others (after ++ [e]) (by simp) part some
      cases after with
      | nil => cases head
      | cons first rest => exact head
    · rintro items others rfl
      exact presented trace items others [] rfl
    · rintro rfl before items others rfl part
      by_contra some
      exact kept before items others [.fail] (by simp) part some rfl
  · rintro ⟨⟨presented,kept⟩,last,broken⟩
    refine ⟨?_,?_⟩
    · intro before items others after same
      rcases snoc_split same with ⟨-,rfl,here⟩ | ⟨after',-,inside⟩
      · exact last items others here.symm
      · exact presented before items others after' inside
    · intro before items others after same part some head
      rcases snoc_split same with ⟨rfl,-,-⟩ | ⟨after',rfl,inside⟩
      · cases head
      · rcases head_snoc head with ⟨rfl,here⟩ | head
        · exact some (broken here.symm before items others inside part)
        · exact kept before items others after' inside part some head

theorem seamless_read : f.Seamless (trace ++ [Passage.read items]) ↔ f.Seamless trace := by
  simp [seamless_snoc]

theorem seamless_fail : f.Seamless (trace ++ [Passage.fail]) ↔ f.Seamless trace ∧
    ∀ before items others, trace = before ++ [Passage.present items others] → f.size (items ++ others) = none →
      items = [] := by
  simp [seamless_snoc]

theorem seamless_nil : f.Seamless [] := ⟨fun before items others after same => by simp at same,
  fun before items others after same => by simp at same⟩

theorem unconsumed_exchange : f.unconsumed (trace ++ [Passage.read items,.present items others]) =
    (f.unconsumed trace ++ items).drop ((f.size (items ++ others)).getD 0) := by
  rw [unconsumed,List.foldl_append]
  rfl

theorem unconsumed_fail : f.unconsumed (trace ++ [Passage.fail]) = f.unconsumed trace := by
  rw [unconsumed,List.foldl_append]
  rfl

/-- A piece is passed on by itself rightly when nothing was left. -/
theorem seamless_exchange : f.Seamless (trace ++ [Passage.read items,.present items others]) ↔
    f.Seamless trace ∧ f.unconsumed trace = [] ∧ others = [] := by
  have split : trace ++ [Passage.read items,.present items others] =
      trace ++ [Passage.read items] ++ [Passage.present items others] := by
    simp
  have read : f.unconsumed (trace ++ [Passage.read items]) = f.unconsumed trace ++ items := by
    rw [unconsumed,List.foldl_append]
    rfl
  rw [split,seamless_snoc,seamless_read,read]
  simp [and_comm]

theorem pieces_exchange : pieces (trace ++ [Passage.read items,.present items others]) = pieces trace ++ [items] := by
  simp [pieces,Passage.piece]

theorem pieces_fail : pieces (trace ++ [Passage.fail]) = pieces trace := by
  simp [pieces,Passage.piece]

/-- A reader that passes on each piece by itself ends a trace with a presentation only if it was whole. -/
theorem Piecewise.last (piecewise : f.Piecewise trace) {before : List (Passage α)}
    (same : trace = before ++ [Passage.present items others]) : f.size (items ++ others) ≠ none := by
  cases piecewise with
  | nil => simp at same
  | @exchange trace items' others' piecewise whole =>
    have lasts := congrArg List.getLast? same
    simp at lasts
    obtain ⟨rfl,rfl⟩ := lasts
    exact whole
  | lose | fail =>
    have lasts := congrArg List.getLast? same
    simp at lasts

/-- As long as it works nothing is left exactly if each piece was whole. -/
theorem Piecewise.left (piecewise : f.Piecewise trace) (seamless : f.Seamless trace) :
    f.unconsumed trace = [] ↔ ∀ piece ∈ pieces trace, f.Whole piece := by
  have exchange {trace : List (Passage α)} {items others : List α}
      (ih : f.unconsumed trace = [] ↔ ∀ piece ∈ pieces trace, f.Whole piece)
      (seamless : f.Seamless (trace ++ [Passage.read items,.present items others])) :
      f.unconsumed (trace ++ [Passage.read items,.present items others]) = [] ↔
        ∀ piece ∈ pieces (trace ++ [Passage.read items,.present items others]), f.Whole piece := by
    obtain ⟨-,none,rfl⟩ := seamless_exchange.mp seamless
    have members : (∀ piece ∈ pieces trace ++ [items], f.Whole piece) ↔
        (∀ piece ∈ pieces trace, f.Whole piece) ∧ f.Whole items := by
      simp [or_imp,forall_and]
    rw [pieces_exchange,members,← ih,unconsumed_exchange,none,List.nil_append,List.append_nil,
      List.drop_eq_nil_iff,and_iff_right rfl]
    cases size : f.size items with
    | none => simp [Whole,size,eq_comm]
    | some n =>
      have bound := (f.bounds items n size).2
      rw [Whole,size,Option.getD_some]
      omega
  induction piecewise with
  | nil => exact iff_of_true rfl (fun piece member => absurd member List.not_mem_nil)
  | @exchange trace items others before whole ih =>
    exact exchange (ih (seamless_exchange.mp seamless).1) seamless
  | @lose trace items others before part ih =>
    have split : trace ++ [Passage.read items,.present items others,.fail] =
        trace ++ [Passage.read items,.present items others] ++ [Passage.fail] := by simp
    rw [split] at seamless ⊢
    have seamless := (seamless_fail.mp seamless).1
    rw [unconsumed_fail,pieces_fail]
    exact exchange (ih (seamless_exchange.mp seamless).1) seamless
  | @fail trace before ih =>
    rw [unconsumed_fail,pieces_fail]
    exact ih (seamless_fail.mp seamless).1

/-- It works exactly on the pieces that are messages, up to the last. -/
theorem Piecewise.seamless_iff (piecewise : f.Piecewise trace) :
    f.Seamless trace ↔ f.Segmented (pieces trace) ∧ ∀ e ∈ trace, e.bare := by
  have exchange {trace : List (Passage α)} {items others : List α} (before : f.Piecewise trace)
      (ih : f.Seamless trace ↔ f.Segmented (pieces trace) ∧ ∀ e ∈ trace, e.bare) :
      f.Seamless (trace ++ [Passage.read items,.present items others]) ↔
        (∀ piece ∈ pieces trace, f.Whole piece) ∧ (∀ e ∈ trace, e.bare) ∧ others = [] := by
    rw [seamless_exchange]
    constructor
    · rintro ⟨seamless,none,rfl⟩
      exact ⟨(before.left seamless).mp none,(ih.mp seamless).2,rfl⟩
    · rintro ⟨whole,bare,rfl⟩
      have seamless := ih.mpr ⟨segmented_whole whole,bare⟩
      exact ⟨seamless,(before.left seamless).mpr whole,rfl⟩
  induction piecewise with
  | nil => exact iff_of_true seamless_nil ⟨by simp [pieces,Segmented],by simp⟩
  | @exchange trace items others before whole ih =>
    have bare : (∀ e ∈ trace ++ [Passage.read items,.present items others], e.bare) ↔
        (∀ e ∈ trace, e.bare) ∧ others = [] := by
      simp [Passage.bare,or_imp,forall_and]
    rw [exchange before ih,pieces_exchange,segmented_snoc,bare,and_assoc]
    refine and_congr_right fun _ => ⟨fun ⟨all,bare⟩ => ⟨?_,all,bare⟩,fun ⟨_,rest⟩ => rest⟩
    intro missing
    rw [bare,List.append_nil] at whole
    exact absurd missing whole
  | @lose trace items others before part ih =>
    have split : trace ++ [Passage.read items,.present items others,.fail] =
        trace ++ [Passage.read items,.present items others] ++ [Passage.fail] := by simp
    have bare : (∀ e ∈ trace ++ [Passage.read items,.present items others] ++ [Passage.fail], e.bare) ↔
        (∀ e ∈ trace, e.bare) ∧ others = [] := by
      simp [Passage.bare,or_imp,forall_and]
    have last : (∀ before items' others', trace ++ [Passage.read items,.present items others] =
        before ++ [Passage.present items' others'] → f.size (items' ++ others') = none → items' = []) ↔
          items = [] := by
      constructor
      · exact fun all => all (trace ++ [Passage.read items]) items others (by simp) part
      · rintro none before items' others' same -
        have lasts := congrArg List.getLast? same
        simp at lasts
        exact lasts.1.symm.trans none
    rw [split,seamless_fail,exchange before ih,last,pieces_fail,pieces_exchange,segmented_snoc,bare]
    constructor
    · rintro ⟨⟨whole,all,none⟩,empty⟩
      exact ⟨⟨whole,fun _ => empty⟩,all,none⟩
    · rintro ⟨⟨whole,empty⟩,all,none⟩
      rw [none,List.append_nil] at part
      exact ⟨⟨whole,all,none⟩,empty part⟩
  | @fail trace before ih =>
    have bare : (∀ e ∈ trace ++ [Passage.fail], e.bare) ↔ ∀ e ∈ trace, e.bare := by
      simp [Passage.bare,or_imp,forall_and]
    rw [seamless_fail,pieces_fail,bare]
    exact (and_iff_left (fun front items others same part => absurd part (before.last same))).trans ih

/-- The messages taken are those of the stream, however it was cut. -/
theorem Segmented.firsts {pieces : List (List α)} {stream : List α} (segmented : f.Segmented pieces)
    (cut : pieces.flatten <+: stream) : f.messages pieces = f.firsts (f.messages pieces).length stream := by
  induction pieces generalizing stream with
  | nil => rfl
  | cons piece pieces ih =>
    obtain ⟨rest,rfl⟩ := cut
    rw [List.flatten_cons,List.append_assoc]
    cases size : f.size piece with
    | none =>
      have same : f.messages (piece :: pieces) = f.messages pieces := by simp [messages,size]
      rw [same]
      by_cases last : pieces = []
      · subst last
        rfl
      · obtain ⟨whole,segmented⟩ := segmented_tail segmented last
        rw [whole_begins whole size,List.nil_append]
        exact ih segmented (List.prefix_append _ _)
    | some k =>
      have same : f.messages (piece :: pieces) = piece.take k :: f.messages pieces := by simp [messages,size]
      have bound := (f.bounds piece k size).2
      rw [same,List.length_cons,Framing.firsts,f.stable piece _ k size]
      simp only [List.take_append_of_le_length bound,List.cons.injEq,true_and]
      by_cases last : pieces = []
      · subst last
        rfl
      · obtain ⟨whole,segmented⟩ := segmented_tail segmented last
        rw [Whole,size,Option.getD_some] at whole
        rw [whole,List.drop_left]
        exact ih segmented (List.prefix_append _ _)

end Framing

end Xrossfire.Library
