import Mathlib.Logic.Relation

/-! Reachability cut at boundaries. A walk follows labelled edges and stops at the targets its
boundaries cut for that label, though never at its own root; every target a walk was cut at gets
a walk of its own. Together the walks reach what one walk without boundaries reaches. -/

namespace Segarecomp.Lib.Stitching

variable {ι α : Type*} (edge : ι → α → α → Prop) (cut : ι → α → Prop)

def Joined (a b : α) : Prop := ∃ label, edge label a b

def Reaches (entry : α) : α → Prop := Relation.ReflTransGen (Joined edge) entry

/-- The edges a walk from `root` follows. -/
def Follows (root a b : α) : Prop := ∃ label, edge label a b ∧ ¬(b ≠ root ∧ cut label b)

def Walk (root : α) : α → Prop := Relation.ReflTransGen (Follows edge cut root) root

/-- The targets a walk from `root` is cut at. -/
def Stitches (root b : α) : Prop := ∃ a label, Walk edge cut root a ∧ edge label a b ∧ b ≠ root ∧ cut label b

inductive Owned (entry : α) : α → Prop
  | entry : Owned entry entry
  | stitched {root b : α} (owner : Owned entry root) (stitch : Stitches edge cut root b) : Owned entry b

variable {edge cut} {entry root a b : α}

theorem Walk.reaches (walk : Walk edge cut root a) : Reaches edge root a := by
  have joins : Follows edge cut root ≤ Joined edge := by
    intro x y follows
    obtain ⟨label, here, -⟩ := follows
    exact ⟨label, here⟩
  exact Relation.ReflTransGen.mono joins _ _ walk

theorem Owned.reaches (owned : Owned edge cut entry root) : Reaches edge entry root := by
  induction owned with
  | entry => exact .refl
  | stitched _ stitch ih =>
    obtain ⟨a, label, walk, here, -⟩ := stitch
    exact (ih.trans walk.reaches).tail ⟨label, here⟩

/-- What a walk from `entry` reaches is walked from some root that is owned. -/
theorem walked_of_reaches (reaches : Reaches edge entry a) :
    ∃ root, Owned edge cut entry root ∧ Walk edge cut root a := by
  induction reaches with
  | refl => exact ⟨entry, .entry, .refl⟩
  | @tail x y _ joined ih =>
    obtain ⟨root, owned, walk⟩ := ih
    obtain ⟨label, here⟩ := joined
    by_cases elided : y ≠ root ∧ cut label y
    · exact ⟨y, owned.stitched ⟨x, label, walk, here, elided⟩, .refl⟩
    · exact ⟨root, owned, walk.tail ⟨label, here, elided⟩⟩

/-- A walk that nothing cuts reaches everything. -/
theorem walk_of_uncut (uncut : ∀ label b, ¬cut label b) (reaches : Reaches edge root a) : Walk edge cut root a := by
  have follows : Joined edge ≤ Follows edge cut root := by
    intro x y joined
    obtain ⟨label, here⟩ := joined
    exact ⟨label, here, fun elided => uncut label y elided.2⟩
  exact Relation.ReflTransGen.mono follows _ _ reaches

theorem reaches_iff_walked : Reaches edge entry a ↔ ∃ root, Owned edge cut entry root ∧ Walk edge cut root a := by
  constructor
  · exact walked_of_reaches
  · intro ⟨root, owned, walk⟩
    exact owned.reaches.trans walk.reaches

end Segarecomp.Lib.Stitching
