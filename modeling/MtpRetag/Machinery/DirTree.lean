import MtpRetag.Machinery.PathMap
import Mathlib.Data.List.AList
import Mathlib.Data.List.Induction

/-!
# Machinery/DirTree — files and directories, each in a directory

A `DirTree` is a finite map from paths to entries that carries its shape: the root is a directory,
and whatever else there is lies in one.  A `Call` is what an operating system is asked to do at one
path.  It is allowed where the shape can be kept, and then changes what lies at its path and nothing
else (`look_step`); read as a path map, that is one edit (`look_step_eq_apply`).
-/

/-- What lies at a path. -/
inductive DirTree.Entry (β : Type*)
  | dir
  | file (bytes : List β)
  deriving DecidableEq

/-- Files and directories by their paths. -/
structure DirTree (κ β : Type*) [DecidableEq κ] where
  entries : AList fun _ : List κ => DirTree.Entry β
  root : entries.lookup [] = some .dir
  parent : ∀ {p : List κ}, p ≠ [] → (entries.lookup p).isSome →
    entries.lookup p.dropLast = some .dir

namespace DirTree

variable {κ β : Type*} [DecidableEq κ] {t t' : DirTree κ β} {p q : List κ}

/-- The tree as a path map. -/
def look (t : DirTree κ β) : PathMap κ (Entry β) := fun p => t.entries.lookup p

@[simp] theorem look_nil (t : DirTree κ β) : t.look [] = some .dir := t.root

theorem look_of_notMem_keys (h : p ∉ t.entries.keys) : t.look p = none := AList.lookup_eq_none.mpr h

/-- The root alone. -/
def empty : DirTree κ β where
  entries := AList.singleton [] .dir
  root := AList.lookup_insert ∅
  parent hp hsome := by
    rw [AList.lookup_isSome, AList.mem_keys, AList.keys_singleton, List.mem_singleton] at hsome
    exact absurd hsome hp

/-- **On the way to an entry** there are directories only. -/
theorem look_dir_above (h : (t.look q).isSome) (hpre : p <+: q) (hne : p ≠ q) :
    t.look p = some .dir := by
  induction q using List.reverseRecOn with
  | nil => exact absurd (List.prefix_nil.mp hpre) hne
  | append_singleton q k ih =>
    have hparent : t.look q = some .dir := by
      have hdir := t.parent (by simp) h
      rwa [List.dropLast_concat] at hdir
    rcases List.prefix_concat_iff.mp hpre with rfl | hpre
    · exact absurd rfl hne
    · by_cases hpq : p = q
      · rw [hpq, hparent]
      · exact ih (by rw [hparent]; rfl) hpre hpq

/-- Where there is no directory, there is nothing below. -/
theorem look_below (h : t.look p ≠ some .dir) (hpre : p <+: q) (hne : q ≠ p) : t.look q = none := by
  by_contra hsome
  exact h (look_dir_above (Option.ne_none_iff_isSome.mp hsome) hpre (Ne.symm hne))

/-! ## Changing one entry -/

/-- Something else at a path keeps the shape. -/
structure Settles (t : DirTree κ β) (p : List κ) (e : Option (Entry β)) : Prop where
  ne_nil : p ≠ []
  parent : e.isSome → t.look p.dropLast = some .dir
  below : e ≠ some .dir → ∀ q, p <+: q → q ≠ p → t.look q = none

theorem lookup_elim (entries : AList fun _ : List κ => Entry β) (p q : List κ)
    (e : Option (Entry β)) :
    (e.elim (entries.erase p) fun e => entries.insert p e).lookup q =
      if q = p then e else entries.lookup q := by
  split
  case isTrue h =>
    subst h
    cases e with
    | none => exact AList.lookup_erase _ _
    | some e => exact AList.lookup_insert _
  case isFalse h =>
    cases e with
    | none => exact AList.lookup_erase_ne h
    | some e => exact AList.lookup_insert_ne h

/-- Another entry at a path, or none. -/
def set (t : DirTree κ β) (p : List κ) (e : Option (Entry β)) (h : t.Settles p e) :
    DirTree κ β where
  entries := e.elim (t.entries.erase p) fun e => t.entries.insert p e
  root := by rw [lookup_elim, if_neg (Ne.symm h.ne_nil), t.root]
  parent {q} hq hsome := by
    rw [lookup_elim] at hsome ⊢
    have hshorter : q.dropLast ≠ q := fun heq => by
      have hlen := congrArg List.length heq
      have hpos := List.length_pos_iff.mpr hq
      rw [List.length_dropLast] at hlen
      omega
    by_cases hqp : q = p
    · subst hqp
      rw [if_pos rfl] at hsome
      rw [if_neg hshorter]
      exact h.parent hsome
    · rw [if_neg hqp] at hsome
      split
      case isTrue hparent =>
        by_contra hdir
        have hbelow := h.below hdir q (hparent ▸ q.dropLast_prefix) hqp
        rw [show t.entries.lookup q = none from hbelow] at hsome
        simp at hsome
      case isFalse => exact t.parent hq hsome

theorem look_set {e : Option (Entry β)} (h : t.Settles p e) :
    (t.set p e h).look = Function.update t.look p e := by
  funext q
  rw [Function.update_apply]
  exact lookup_elim t.entries p q e

/-! ## Calls -/

/-- What a system is asked to do: write a file, whatever was in it; make or remove a directory;
remove a file. -/
inductive Call (κ β : Type*)
  | write (p : List κ) (bytes : List β)
  | mkdir (p : List κ)
  | unlink (p : List κ)
  | rmdir (p : List κ)

namespace Call

def path : Call κ β → List κ
  | .write p _ | .mkdir p | .unlink p | .rmdir p => p

/-- What the call leaves at its path. -/
def leaves : Call κ β → Option (Entry β)
  | .write _ bytes => some (.file bytes)
  | .mkdir _ => some .dir
  | .unlink _ | .rmdir _ => none

/-- The call as an edit of a path map. -/
def edit : Call κ β → PathMap.Edit κ (Entry β)
  | .write p bytes => .put p (.file bytes)
  | .mkdir p => .add p .dir
  | .unlink p | .rmdir p => .remove p

end Call

/-- When a call is allowed: a file is written in a directory, and not over one; a directory is made
where nothing is, and removed when it is empty. -/
def Allows (t : DirTree κ β) : Call κ β → Prop
  | .write p _ => p ≠ [] ∧ t.look p ≠ some .dir ∧ t.look p.dropLast = some .dir
  | .mkdir p => p ≠ [] ∧ t.look p = none ∧ t.look p.dropLast = some .dir
  | .unlink p => t.look p ≠ none ∧ t.look p ≠ some .dir
  | .rmdir p => p ≠ [] ∧ t.look p = some .dir ∧ ∀ q ∈ t.entries.keys, p <+: q → q = p

instance [DecidableEq β] (t : DirTree κ β) : (c : Call κ β) → Decidable (t.Allows c)
  | .write p _ =>
    inferInstanceAs (Decidable (p ≠ [] ∧ t.look p ≠ some .dir ∧ t.look p.dropLast = some .dir))
  | .mkdir p =>
    inferInstanceAs (Decidable (p ≠ [] ∧ t.look p = none ∧ t.look p.dropLast = some .dir))
  | .unlink p => inferInstanceAs (Decidable (t.look p ≠ none ∧ t.look p ≠ some .dir))
  | .rmdir p =>
    inferInstanceAs (Decidable (p ≠ [] ∧ t.look p = some .dir ∧
      ∀ q ∈ t.entries.keys, p <+: q → q = p))

/-- An empty directory has nothing below it. -/
theorem forall_mem_keys_iff :
    (∀ q ∈ t.entries.keys, p <+: q → q = p) ↔ ∀ q, p <+: q → q ≠ p → t.look q = none := by
  refine forall_congr' fun q => ?_
  rw [← AList.mem_keys, ← AList.lookup_isSome, look, ← Option.not_isSome_iff_eq_none]
  tauto

theorem settles_of_allows {c : Call κ β} (h : t.Allows c) : t.Settles c.path c.leaves := by
  cases c with
  | write p bytes => exact ⟨h.1, fun _ => h.2.2, fun _ q => look_below h.2.1⟩
  | mkdir p => exact ⟨h.1, fun _ => h.2.2, fun hne => absurd rfl hne⟩
  | unlink p =>
    refine ⟨?_, fun hsome => by simp [Call.leaves] at hsome, fun _ q => look_below h.2⟩
    rintro rfl
    exact h.2 t.root
  | rmdir p =>
    exact ⟨h.1, fun hsome => by simp [Call.leaves] at hsome,
      fun _ => forall_mem_keys_iff.mp h.2.2⟩

variable [DecidableEq β] {c : Call κ β}

/-- A call, if it is allowed. -/
def step (t : DirTree κ β) (c : Call κ β) : Option (DirTree κ β) :=
  if h : t.Allows c then some (t.set c.path c.leaves (settles_of_allows h)) else none

theorem step_isSome_iff : (t.step c).isSome ↔ t.Allows c := by
  rw [step]
  split
  case isTrue h => simpa using h
  case isFalse h => simpa using h

theorem allows_of_step (h : t.step c = some t') : t.Allows c :=
  step_isSome_iff.mp (by rw [h]; rfl)

/-- **A call changes what lies at its path**, and nothing else… -/
theorem look_step (h : t.step c = some t') : t'.look = Function.update t.look c.path c.leaves := by
  rw [step, dif_pos (allows_of_step h)] at h
  rw [← Option.some.inj h, look_set]

theorem look_step_self (h : t.step c = some t') : t'.look c.path = c.leaves := by
  rw [look_step h, Function.update_self]

theorem look_step_of_ne (h : t.step c = some t') (hne : q ≠ c.path) : t'.look q = t.look q := by
  rw [look_step h, Function.update_of_ne hne]

/-- …which is one edit of the path map. -/
theorem look_step_eq_apply (h : t.step c = some t') : t'.look = c.edit.apply t.look := by
  have hsettles := settles_of_allows (allows_of_step h)
  funext q
  by_cases hq : q = c.path
  · subst hq
    have hself := look_step_self h
    have hallows := allows_of_step h
    cases c with
    | write p bytes => exact hself.trans PathMap.put_self.symm
    | mkdir p =>
      have hnone : t.look p = none := hallows.2.1
      refine hself.trans ?_
      simp [Call.edit, Call.path, Call.leaves, PathMap.Edit.apply, PathMap.add, hnone]
    | unlink p | rmdir p =>
      exact hself.trans <| Eq.symm <| PathMap.remove_of_prefix List.prefix_rfl hsettles.ne_nil
  · rw [look_step_of_ne h hq]
    cases c with
    | write p bytes =>
      by_cases hpre : p <+: q
      · exact (hsettles.below (by simp [Call.leaves]) q hpre hq).trans
          (PathMap.put_below hpre hq).symm
      · exact Eq.symm <| PathMap.put_of_not_prefix hpre
    | mkdir p => exact (PathMap.add_of_ne hq).symm
    | unlink p | rmdir p =>
      by_cases hpre : p <+: q
      · have hne : q ≠ [] := fun hnil => hsettles.ne_nil (List.prefix_nil.mp (hnil ▸ hpre))
        exact (hsettles.below (by simp [Call.leaves]) q hpre hq).trans <| Eq.symm <|
          PathMap.remove_of_prefix hpre hne
      · exact Eq.symm <| PathMap.remove_of_not_prefix hpre

end DirTree
