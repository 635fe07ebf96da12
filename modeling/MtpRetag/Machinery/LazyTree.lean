import MtpRetag.Machinery.Rose

/-!
# Machinery/LazyTree — trees that are populated as they are looked at

A value `v` may have children `kids v`, of which a tree shows none yet or all: `Shows`.  `populate
kids k` fills a tree down to depth `k`, recursing where children are there already and creating them
where they are not.

* `saturated_populate` — afterwards nothing is missing down to that depth;
* `populate_of_saturated` — where nothing is missing, nothing changes;
* `Saturated.of_extends` — what is not missing stays so, whatever is populated elsewhere.
-/

namespace Rose

variable {α : Type*} {kids : α → List α}

/-- Populate a tree to a depth. -/
def populate (kids : α → List α) : ℕ → Rose α → Rose α
  | 0, t => t
  | k + 1, t =>
    if t.children = [] then node t.val ((kids t.val).map fun v => populate kids k (node v []))
    else node t.val (t.children.map (populate kids k))

/-- Every node shows no children or all of them, in their order. -/
def Shows (kids : α → List α) (t : Rose α) : Prop :=
  ∀ p n, t.sub? p = some n → n.children = [] ∨ n.children.map val = kids n.val

/-- A node without children has none to show. -/
def Done (kids : α → List α) (t : Rose α) : Prop := t.children = [] → kids t.val = []

/-- Nothing is missing down to a depth. -/
def Saturated (kids : α → List α) : ℕ → Rose α → Prop
  | 0, _ => True
  | k + 1, t => Done kids t ∧ ∀ c ∈ t.children, Saturated kids k c

/-- What a tree has at a position, the other has too, with as many children if it has any. -/
def Extends (t t' : Rose α) : Prop :=
  ∀ p n, t.sub? p = some n → ∃ n', t'.sub? p = some n' ∧ n'.val = n.val ∧
    (n.children ≠ [] → n'.children.length = n.children.length)

/-! ## Populating -/

theorem populate_of_leaf {t : Rose α} (h : t.children = []) (k : ℕ) :
    populate kids (k + 1) t =
      node t.val ((kids t.val).map fun v => populate kids k (node v [])) := by
  rw [populate, if_pos h]

theorem populate_of_children {t : Rose α} (h : t.children ≠ []) (k : ℕ) :
    populate kids (k + 1) t = node t.val (t.children.map (populate kids k)) := by
  rw [populate, if_neg h]

@[simp] theorem val_populate (k : ℕ) (t : Rose α) : (populate kids k t).val = t.val := by
  cases k with
  | zero => rfl
  | succ k =>
    rw [populate]
    split <;> rfl

/-- **Nothing is missing afterwards.** -/
theorem saturated_populate : ∀ (k : ℕ) (t : Rose α), Saturated kids k (populate kids k t)
  | 0, _ => trivial
  | k + 1, t => by
      by_cases hleaf : t.children = []
      · rw [populate_of_leaf hleaf]
        refine ⟨fun h => by simpa using h, fun c hc => ?_⟩
        obtain ⟨v, -, rfl⟩ := List.mem_map.mp hc
        exact saturated_populate k (node v [])
      · rw [populate_of_children hleaf]
        refine ⟨fun h => absurd (List.map_eq_nil_iff.mp h) hleaf, fun c hc => ?_⟩
        obtain ⟨d, -, rfl⟩ := List.mem_map.mp hc
        exact saturated_populate k d

/-- **Where nothing is missing, nothing changes.** -/
theorem populate_of_saturated :
    ∀ {k : ℕ} {t : Rose α}, Saturated kids k t → populate kids k t = t
  | 0, _, _ => rfl
  | k + 1, t, h => by
      by_cases hleaf : t.children = []
      · rw [populate_of_leaf hleaf, h.1 hleaf, List.map_nil, ← hleaf, node_val_children]
      · have hsame : t.children.map (populate kids k) = t.children :=
          (List.map_congr_left fun c hc => populate_of_saturated (h.2 c hc)).trans (List.map_id _)
        rw [populate_of_children hleaf, hsame, node_val_children]

theorem populate_of_kids_nil {v : α} (h : kids v = []) (k : ℕ) :
    populate kids k (node v []) = node v [] := by
  cases k with
  | zero => rfl
  | succ k => rw [populate_of_leaf rfl, val_node, h, List.map_nil]

/-! ## Showing -/

theorem shows_node {v : α} {cs : List (Rose α)} :
    Shows kids (node v cs) ↔ (cs = [] ∨ cs.map val = kids v) ∧ ∀ c ∈ cs, Shows kids c := by
  constructor
  · refine fun h => ⟨h [] _ (sub?_nil _), fun c hc p n hn => ?_⟩
    obtain ⟨i, hi⟩ := List.mem_iff_getElem?.mp hc
    exact h (i :: p) n (by simp [hi, hn])
  · rintro ⟨hroot, hcs⟩ p n hn
    cases p with
    | nil =>
      obtain rfl : node v cs = n := by simpa using hn
      exact hroot
    | cons i p =>
      rw [sub?_cons] at hn
      obtain ⟨c, hc, hn⟩ := Option.bind_eq_some_iff.mp hn
      exact hcs c (List.mem_of_getElem? hc) p n hn

theorem shows_leaf (v : α) : Shows kids (node v []) := shows_node.mpr ⟨.inl rfl, by simp⟩

/-- A node that shows its children where it must shows all of them. -/
theorem map_val_children {t : Rose α} (hs : Shows kids t) (hd : Done kids t) :
    t.children.map val = kids t.val := by
  rcases hs [] t (sub?_nil t) with h | h
  · rw [h, hd h, List.map_nil]
  · exact h

theorem map_val_map {f : Rose α → Rose α} (hf : ∀ c, (f c).val = c.val) (cs : List (Rose α)) :
    (cs.map f).map val = cs.map val := by
  rw [List.map_map]
  exact List.map_congr_left fun c _ => hf c

/-- A part of what is shown. -/
theorem Shows.sub? {t n : Rose α} {p : List ℕ} (h : Shows kids t) (hn : t.sub? p = some n) :
    Shows kids n := fun q m hm =>
  h (p ++ q) m (by rw [sub?_append, hn, Option.bind_some, hm])

/-- …such as a child. -/
theorem Shows.child {t c : Rose α} (h : Shows kids t) (hc : c ∈ t.children) : Shows kids c := by
  obtain ⟨i, hi⟩ := List.mem_iff_getElem?.mp hc
  exact h.sub? (p := [i]) (by simp [hi])

theorem Shows.populate {t : Rose α} (h : Shows kids t) :
    ∀ k : ℕ, Shows kids (populate kids k t) := by
  intro k
  induction k generalizing t with
  | zero => exact h
  | succ k ih =>
    by_cases hleaf : t.children = []
    · rw [populate_of_leaf hleaf]
      refine shows_node.mpr ⟨.inr ?_, fun c hc => ?_⟩
      · rw [List.map_map]
        exact (List.map_congr_left fun v _ => val_populate k (node v [])).trans (List.map_id _)
      · obtain ⟨v, -, rfl⟩ := List.mem_map.mp hc
        exact ih (shows_leaf v)
    · have ht := shows_node.mp ((node_val_children t).symm ▸ h)
      rw [populate_of_children hleaf]
      refine shows_node.mpr ⟨.inr ?_, fun c hc => ?_⟩
      · rw [map_val_map (val_populate k)]
        exact ht.1.resolve_left hleaf
      · obtain ⟨d, hd, rfl⟩ := List.mem_map.mp hc
        exact ih (ht.2 d hd)

/-! ## Extending -/

theorem Extends.refl (t : Rose α) : Extends t t := fun _ n hn => ⟨n, hn, rfl, fun _ => rfl⟩

theorem Extends.trans {t t' t'' : Rose α} (h : Extends t t') (h' : Extends t' t'') :
    Extends t t'' := by
  intro p n hn
  obtain ⟨n', hn', hval, hlen⟩ := h p n hn
  obtain ⟨n'', hn'', hval', hlen'⟩ := h' p n' hn'
  refine ⟨n'', hn'', hval'.trans hval, fun hne => ?_⟩
  have hne' : n'.children ≠ [] := fun h0 => hne (List.length_eq_zero_iff.mp (by
    rw [← hlen hne, h0, List.length_nil]))
  exact (hlen' hne').trans (hlen hne)

/-- Nodes extend when their values are one and each child, if there is any, extends. -/
theorem extends_of_children {t t' : Rose α} (hval : t'.val = t.val)
    (hlen : t.children ≠ [] → t'.children.length = t.children.length)
    (hcs : ∀ (i : ℕ) c, t.children[i]? = some c → ∃ c', t'.children[i]? = some c' ∧ Extends c c') :
    Extends t t' := by
  intro p n hn
  cases p with
  | nil =>
    obtain rfl : t = n := by simpa using hn
    exact ⟨t', sub?_nil t', hval, hlen⟩
  | cons i p =>
    rw [sub?_cons] at hn
    obtain ⟨c, hc, hn⟩ := Option.bind_eq_some_iff.mp hn
    obtain ⟨c', hc', hext⟩ := hcs i c hc
    obtain ⟨n', hn', hrest⟩ := hext p n hn
    exact ⟨n', by simp [hc', hn'], hrest⟩

/-- …and then its children do. -/
theorem Extends.child {t t' c : Rose α} (h : Extends t t') {i : ℕ} (hc : t.children[i]? = some c) :
    ∃ c', t'.children[i]? = some c' ∧ Extends c c' := by
  obtain ⟨c', hc', -⟩ := h [i] c (by simp [hc])
  have hchild : t'.children[i]? = some c' := by simpa using hc'
  refine ⟨c', hchild, fun p n hn => ?_⟩
  obtain ⟨n', hn', hrest⟩ := h (i :: p) n (by simp [hc, hn])
  exact ⟨n', by simpa [hchild] using hn', hrest⟩

theorem Extends.val {t t' : Rose α} (h : Extends t t') : t'.val = t.val := by
  obtain ⟨n', hn', hval, -⟩ := h [] t (sub?_nil t)
  obtain rfl : t' = n' := by simpa using hn'
  exact hval

theorem Extends.length_children {t t' : Rose α} (h : Extends t t') (hne : t.children ≠ []) :
    t'.children.length = t.children.length := by
  obtain ⟨n', hn', -, hlen⟩ := h [] t (sub?_nil t)
  obtain rfl : t' = n' := by simpa using hn'
  exact hlen hne

theorem extends_populate : ∀ (k : ℕ) (t : Rose α), Extends t (populate kids k t)
  | 0, t => .refl t
  | k + 1, t => by
      by_cases hleaf : t.children = []
      · refine extends_of_children (val_populate _ t) (absurd hleaf) fun i c hc => ?_
        simp [hleaf] at hc
      · rw [populate_of_children hleaf]
        refine extends_of_children rfl (fun _ => List.length_map _) fun i c hc => ?_
        exact ⟨populate kids k c, by simp [hc], extends_populate k c⟩

/-- What is not missing stays so. -/
theorem Done.of_extends {t t' : Rose α} (hd : Done kids t) (h : Extends t t') : Done kids t' := by
  intro hleaf
  rw [h.val]
  refine hd (by_contra fun hne => hne ?_)
  rw [← List.length_eq_zero_iff, ← h.length_children hne, hleaf, List.length_nil]

/-- **…down to any depth**, if no more is shown than there is. -/
theorem Saturated.of_extends :
    ∀ {k : ℕ} {t t' : Rose α}, Saturated kids k t → Extends t t' → Shows kids t' →
      Saturated kids k t'
  | 0, _, _, _, _, _ => trivial
  | k + 1, t, t', h, hext, hs => by
      refine ⟨h.1.of_extends hext, fun c' hc' => ?_⟩
      obtain ⟨i, hi⟩ := List.mem_iff_getElem?.mp hc'
      have hsub : t'.sub? [i] = some c' := by simp [hi]
      by_cases hleaf : t.children = []
      · -- a leaf that is done has no children to show later
        have hnone := map_val_children hs (h.1.of_extends hext)
        rw [hext.val, h.1 hleaf, List.map_eq_nil_iff] at hnone
        simp [hnone] at hi
      · have hlt : i < t.children.length := by
          rw [← hext.length_children hleaf]
          exact (List.getElem?_eq_some_iff.mp hi).1
        obtain ⟨c, hc⟩ : ∃ c, t.children[i]? = some c := ⟨_, List.getElem?_eq_getElem hlt⟩
        obtain ⟨d, hd, hcd⟩ := hext.child hc
        obtain rfl : c' = d := Option.some.inj (hi.symm.trans hd)
        exact Saturated.of_extends (h.2 c (List.mem_of_getElem? hc)) hcd (hs.sub? hsub)

/-! ## At a position -/

theorem Extends.exists_sub? {t t' : Rose α} (h : Extends t t') :
    ∀ {p : List ℕ} {n : Rose α}, t.sub? p = some n → ∃ n', t'.sub? p = some n' ∧ Extends n n' := by
  intro p n hn
  obtain ⟨n', hn', -⟩ := h p n hn
  refine ⟨n', hn', fun q m hm => ?_⟩
  obtain ⟨m', hm', hrest⟩ := h (p ++ q) m (by rw [sub?_append, hn, Option.bind_some, hm])
  rw [sub?_append, hn', Option.bind_some] at hm'
  exact ⟨m', hm', hrest⟩

/-- Rewriting a node into itself. -/
theorem modifyAt_eq_self {f : Rose α → Rose α} :
    ∀ {p : List ℕ} {t n : Rose α}, t.sub? p = some n → f n = n → modifyAt f p t = t
  | [], t, n, hn, h => by
      obtain rfl : t = n := by simpa using hn
      exact h
  | j :: p, t, n, hn, h => by
      rw [sub?_cons] at hn
      obtain ⟨d, hd, hn⟩ := Option.bind_eq_some_iff.mp hn
      have hsame : t.children.modify j (modifyAt f p) = t.children := by
        refine List.ext_getElem? fun i => ?_
        rw [List.getElem?_modify]
        obtain rfl | hij := eq_or_ne j i
        · simp [hd, modifyAt_eq_self hn h]
        · simp [hij]
      rw [modifyAt, hsame, node_val_children]

theorem Extends.modifyAt {f : Rose α → Rose α} :
    ∀ {p : List ℕ} {t n : Rose α}, t.sub? p = some n → Extends n (f n) →
      Extends t (modifyAt f p t)
  | [], t, n, hn, h => by
      obtain rfl : t = n := by simpa using hn
      exact h
  | j :: p, t, n, hn, h => by
      rw [sub?_cons] at hn
      obtain ⟨d, hd, hn⟩ := Option.bind_eq_some_iff.mp hn
      refine extends_of_children rfl (fun _ => by simp) fun i c hc => ?_
      rw [children_modifyAt_cons, List.getElem?_modify]
      obtain rfl | hij := eq_or_ne j i
      · obtain rfl : d = c := Option.some.inj (hd.symm.trans hc)
        exact ⟨_, by simp [hc], Extends.modifyAt hn h⟩
      · exact ⟨c, by simp [hc, hij], .refl c⟩

/-- A rewrite that keeps the value of the node it is made at keeps the value of the tree. -/
theorem val_modifyAt {f : Rose α → Rose α} {p : List ℕ} {t n : Rose α} (hn : t.sub? p = some n)
    (hval : (f n).val = n.val) : (modifyAt f p t).val = t.val := by
  cases p with
  | nil =>
    obtain rfl : t = n := by simpa using hn
    exact hval
  | cons j p => rfl

theorem Shows.modifyAt {f : Rose α → Rose α} :
    ∀ {p : List ℕ} {t n : Rose α}, Shows kids t → t.sub? p = some n → (f n).val = n.val →
      Shows kids (f n) → Shows kids (modifyAt f p t)
  | [], t, n, _, hn, _, h => by
      obtain rfl : t = n := by simpa using hn
      exact h
  | j :: p, t, n, ht, hn, hval, h => by
      have hroot := shows_node.mp ((node_val_children t).symm ▸ ht)
      rw [sub?_cons] at hn
      obtain ⟨d, hd, hn⟩ := Option.bind_eq_some_iff.mp hn
      have hnew : Shows kids (Rose.modifyAt f p d) :=
        Shows.modifyAt (hroot.2 d (List.mem_of_getElem? hd)) hn hval h
      have hvals : (t.children.modify j (Rose.modifyAt f p)).map val = t.children.map val := by
        refine List.ext_getElem? fun i => ?_
        rw [List.getElem?_map, List.getElem?_map, List.getElem?_modify]
        obtain rfl | hij := eq_or_ne j i
        · simp [hd, val_modifyAt hn hval]
        · simp [hij]
      have hne : t.children ≠ [] := List.ne_nil_of_mem (List.mem_of_getElem? hd)
      refine shows_node.mpr ⟨.inr (hvals.trans (hroot.1.resolve_left hne)), fun c hc => ?_⟩
      obtain ⟨i, hi⟩ := List.mem_iff_getElem?.mp hc
      rw [List.getElem?_modify] at hi
      obtain rfl | hij := eq_or_ne j i
      · obtain rfl : Rose.modifyAt f p d = c := by simpa [hd] using hi
        exact hnew
      · exact hroot.2 c (List.mem_of_getElem? (by simpa [hij] using hi))

end Rose
