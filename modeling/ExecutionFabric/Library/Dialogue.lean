import Mathlib.Data.List.Infix
import Mathlib.Data.List.Basic

/-!
Asking one thing at a time.

One side answers what it is asked, in the order in which it is asked, if it
answers at all. The other side does not ask again before it heard an answer
(`Waits`). Then each question but the last was answered, the next one follows
from all of the answers (`Kept.asked`), and what is heard in the n-th place is
the answer to the n-th question (`Kept.answer`): an answer need not say what it
belongs to.
-/

namespace Dialogue

variable {α β : Type*} {asks : List β → List α} {ds before : List (α × List β)} {d : α × List β}
  {n : ℕ} {b : β}

/-- What is asked, given the answers heard so far. Nothing is asked before there
was an answer to what was asked last, and nothing is taken back. -/
structure Waits (asks : List β → List α) : Prop where
  bounded : ∀ heard, (asks heard).length ≤ heard.length + 1
  grows : ∀ {heard more}, heard <+: more → asks heard <+: asks more

/-- The answers in a list of questions with their answers. -/
def answers (ds : List (α × List β)) : List β := ds.flatMap Prod.snd

/-- Each question has one answer at most, and was asked upon some of the answers
to the earlier ones. -/
structure Kept (asks : List β → List α) (ds : List (α × List β)) : Prop where
  once : ∀ d ∈ ds, d.2.length ≤ 1
  upon : ∀ before d, before ++ [d] <+: ds →
    ∃ heard, heard <+: answers before ∧ (before ++ [d]).map Prod.fst <+: asks heard

theorem length_answers_le (h : ∀ d ∈ ds, d.2.length ≤ 1) : (answers ds).length ≤ ds.length := by
  induction ds with
  | nil => exact Nat.le_refl 0
  | cons d ds ih =>
      have hd := h d List.mem_cons_self
      have hds := ih fun x hx => h x (List.mem_cons_of_mem d hx)
      simp only [answers, List.flatMap_cons, List.length_append, List.length_cons] at hds ⊢
      omega

theorem answered_of_length (h : ∀ d ∈ ds, d.2.length ≤ 1)
    (hlength : ds.length ≤ (answers ds).length) : ∀ d ∈ ds, d.2.length = 1 := by
  induction ds with
  | nil => exact fun _ hd => absurd hd List.not_mem_nil
  | cons d ds ih =>
      have hd := h d List.mem_cons_self
      have hds := fun x hx => h x (List.mem_cons_of_mem d hx)
      have hle := length_answers_le hds
      simp only [answers, List.flatMap_cons, List.length_append, List.length_cons] at hle hlength
      intro x hx
      rcases List.mem_cons.1 hx with rfl | hx
      · omega
      · exact ih hds (by simp only [answers]; omega) x hx

/-- Where each question has one answer, they are in the same places. -/
theorem getElem?_answers (h : ∀ d ∈ ds, d.2.length = 1) (hb : (answers ds)[n]? = some b) :
    ∃ a, ds[n]? = some (a, [b]) := by
  induction ds generalizing n with
  | nil => cases hb
  | cons d ds ih =>
      obtain ⟨a, bs⟩ := d
      obtain ⟨b', rfl⟩ := List.length_eq_one_iff.1 (h _ List.mem_cons_self)
      cases n with
      | zero => exact ⟨a, congrArg (fun o => o.map fun x => (a, [x])) hb⟩
      | succ n => exact ih (fun x hx => h x (List.mem_cons_of_mem _ hx)) hb

theorem length_answers (h : ∀ d ∈ ds, d.2.length = 1) : (answers ds).length = ds.length := by
  induction ds with
  | nil => rfl
  | cons d ds ih =>
      have hds := ih fun x hx => h x (List.mem_cons_of_mem d hx)
      have hd := h d List.mem_cons_self
      simp only [answers, List.flatMap_cons, List.length_append, List.length_cons] at hds ⊢
      omega

namespace Kept

theorem of_prefix (h : Kept asks ds) (hbefore : before <+: ds) : Kept asks before where
  once d hd := h.once d (hbefore.subset hd)
  upon earlier d hd := h.upon earlier d (hd.trans hbefore)

/-- What comes before a question was answered, and all of it was heard. -/
theorem answered (h : Kept asks (before ++ [d])) (hw : Waits asks) :
    (∀ x ∈ before, x.2.length = 1) ∧
      (before ++ [d]).map Prod.fst = asks (answers before) := by
  obtain ⟨heard, hheard, hasked⟩ := h.upon before d List.prefix_rfl
  have honce : ∀ x ∈ before, x.2.length ≤ 1 := fun x hx => h.once x (List.mem_append_left _ hx)
  have hfew := length_answers_le honce
  have hasks := hasked.length_le.trans (hw.bounded heard)
  rw [List.length_map, List.length_append, List.length_singleton] at hasks
  have hall : heard = answers before := hheard.eq_of_length_le (by omega)
  subst hall
  refine ⟨answered_of_length honce (by omega), hasked.eq_of_length_le ?_⟩
  rw [List.length_map, List.length_append, List.length_singleton]
  have hbounded := hw.bounded (answers before)
  omega

/-- The questions are those that the answers lead to. -/
theorem asked (h : Kept asks ds) (hw : Waits asks) : ds.map Prod.fst <+: asks (answers ds) := by
  rcases List.eq_nil_or_concat' ds with rfl | ⟨before, d, rfl⟩
  · exact List.nil_prefix
  · rw [(h.answered hw).2]
    refine hw.grows ?_
    rw [answers, answers, List.flatMap_append]
    exact List.prefix_append _ _

/-- The n-th answer is the one to the n-th question. -/
theorem answer (h : Kept asks ds) (hw : Waits asks) (hb : (answers ds)[n]? = some b) :
    ∃ a, ds[n]? = some (a, [b]) ∧ (asks (answers ds))[n]? = some a := by
  obtain ⟨a, ha⟩ : ∃ a, ds[n]? = some (a, [b]) := by
    rcases List.eq_nil_or_concat' ds with rfl | ⟨before, d, rfl⟩
    · cases hb
    · have hone := (h.answered hw).1
      have hlength := length_answers hone
      rw [answers, List.flatMap_append] at hb
      by_cases hn : n < before.length
      · rw [List.getElem?_append_left (hlength ▸ hn)] at hb
        rw [List.getElem?_append_left hn]
        exact getElem?_answers hone hb
      · rw [List.getElem?_append_right (hlength ▸ Nat.not_lt.1 hn)] at hb
        rw [List.getElem?_append_right (Nat.not_lt.1 hn)]
        have hlast : ∀ x ∈ [d], x.2.length = 1 := by
          intro x hx
          have hle := h.once d (List.mem_append_right _ List.mem_cons_self)
          have hpos := (List.getElem?_eq_some_iff.1 hb).1
          simp only [List.flatMap_cons, List.flatMap_nil, List.append_nil] at hpos
          rw [List.mem_singleton.1 hx]
          omega
        exact hlength ▸ getElem?_answers hlast hb
  refine ⟨a, ha, ?_⟩
  obtain ⟨more, hmore⟩ := h.asked hw
  obtain ⟨hn, -⟩ := List.getElem?_eq_some_iff.1 ha
  rw [← hmore, List.getElem?_append_left (by rwa [List.length_map]), List.getElem?_map, ha]
  rfl

end Kept

end Dialogue
