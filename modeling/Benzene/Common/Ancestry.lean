import Mathlib.Data.List.Basic

/-!
# Branches of a tree

A tree is given by a partial map to the parents.  `Branch b bs anc` says that `bs` are the nodes
from `b` down to the last one above `anc`.  With a height that goes down by one at each parent
its length is the difference of two heights (`Branch.height_eq`).
-/

namespace Benzene

variable {α : Type} {parent : α → Option α} {height : α → ℕ} {b anc : α} {bs : List α}

/-- The nodes from `b` down to an ancestor, which is not one of them. -/
inductive Branch (parent : α → Option α) : α → List α → α → Prop
  | root (b : α) : Branch parent b [] b
  | step {b p anc : α} {bs : List α} (hparent : parent b = some p) (h : Branch parent p bs anc) :
      Branch parent b (b :: bs) anc

/-- From the nodes of `P` the parents go down one at a time, and stay in `P`. -/
def Descends (parent : α → Option α) (height : α → ℕ) (P : α → Prop) : Prop :=
  ∀ b p, P b → parent b = some p → P p ∧ height p + 1 = height b

theorem Branch.height_eq {P : α → Prop} (h : Branch parent b bs anc)
    (hd : Descends parent height P) (hb : P b) : height b = height anc + bs.length := by
  induction h with
  | root b => rfl
  | step hparent _ ih =>
    obtain ⟨hp, hstep⟩ := hd _ _ hb hparent
    have hrest := ih hp
    rw [List.length_cons]
    omega

theorem Branch.append {p : α} {bs' : List α} (h : Branch parent b bs p)
    (h' : Branch parent p bs' anc) : Branch parent b (bs ++ bs') anc := by
  induction h with
  | root => exact h'
  | step hparent _ ih => exact .step hparent (ih h')

theorem Branch.forall_mem {P : α → Prop} (h : Branch parent b bs anc)
    (hd : Descends parent height P) (hb : P b) : (∀ x ∈ bs, P x) ∧ P anc := by
  induction h with
  | root b => exact ⟨by simp, hb⟩
  | step hparent _ ih =>
    obtain ⟨hbs, hanc⟩ := ih (hd _ _ hb hparent).1
    exact ⟨List.forall_mem_cons.2 ⟨hb, hbs⟩, hanc⟩

end Benzene
