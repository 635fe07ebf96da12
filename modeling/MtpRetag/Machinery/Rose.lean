import MtpRetag.Machinery.Pool

/-!
# Machinery/Rose — ordered trees addressed by positions and by names

A position is the list of child indices that leads from the root to a node.  `sub?` reads the node
at a position, `modifyAt` rewrites it, and `resolve` walks a list of keys downwards, taking at each
level the *first* child that matches.

`resolve_modifyAt` is the frame fact the walks rest on: rewriting the node a walk ends at does not
disturb the walk, as long as the keys do not see the difference.
-/

/-- An ordered tree with a value at every node. -/
inductive Rose (α : Type*) where
  | node (val : α) (children : List (Rose α))

namespace Rose

variable {α κ : Type*}

def val : Rose α → α
  | node v _ => v

def children : Rose α → List (Rose α)
  | node _ cs => cs

@[simp] theorem val_node (v : α) (cs : List (Rose α)) : (node v cs).val = v := rfl

@[simp] theorem children_node (v : α) (cs : List (Rose α)) : (node v cs).children = cs := rfl

@[simp] theorem node_val_children (t : Rose α) : node t.val t.children = t := by cases t; rfl

/-- The node at a position. -/
def sub? : Rose α → List ℕ → Option (Rose α)
  | t, [] => some t
  | t, i :: p => t.children[i]?.bind fun c => c.sub? p

/-- Rewrite the node at a position. -/
def modifyAt (f : Rose α → Rose α) : List ℕ → Rose α → Rose α
  | [], t => f t
  | i :: p, t => node t.val (t.children.modify i (modifyAt f p))

/-- The first child matching a key. -/
def firstMatch (m : α → κ → Bool) (cs : List (Rose α)) (k : κ) : Option ℕ :=
  cs.findIdx? fun c => m c.val k

/-- The position a list of keys leads to, first match at every level. -/
def resolve (m : α → κ → Bool) : List κ → Rose α → Option (List ℕ)
  | [], _ => some []
  | k :: ks, t =>
    (firstMatch m t.children k).bind fun i =>
      t.children[i]?.bind fun c => (resolve m ks c).map (i :: ·)

@[simp] theorem sub?_nil (t : Rose α) : t.sub? [] = some t := by simp [sub?]

@[simp] theorem sub?_cons (t : Rose α) (i : ℕ) (p : List ℕ) :
    t.sub? (i :: p) = t.children[i]?.bind fun c => c.sub? p := by rw [sub?]

theorem sub?_append (p q : List ℕ) :
    ∀ t : Rose α, t.sub? (p ++ q) = (t.sub? p).bind (·.sub? q) := by
  induction p with
  | nil => intro t; simp
  | cons i p ih =>
    intro t
    simp only [List.cons_append, sub?_cons, Option.bind_assoc]
    exact congrArg _ (funext fun c => ih c)

/-- Below a node at `p`, the next level is its list of children. -/
theorem sub?_append_singleton {t n : Rose α} {p : List ℕ} (h : t.sub? p = some n) (i : ℕ) :
    t.sub? (p ++ [i]) = n.children[i]? := by
  rw [sub?_append, h, Option.bind_some, sub?_cons]
  cases n.children[i]? <;> simp

/-! ## Rewriting -/

@[simp] theorem modifyAt_nil (f : Rose α → Rose α) (t : Rose α) : modifyAt f [] t = f t := rfl

@[simp] theorem val_modifyAt_cons (f : Rose α → Rose α) (i : ℕ) (p : List ℕ) (t : Rose α) :
    (modifyAt f (i :: p) t).val = t.val := rfl

@[simp] theorem children_modifyAt_cons (f : Rose α → Rose α) (i : ℕ) (p : List ℕ) (t : Rose α) :
    (modifyAt f (i :: p) t).children = t.children.modify i (modifyAt f p) := rfl

theorem sub?_modifyAt_self (f : Rose α → Rose α) :
    ∀ {p : List ℕ} {t n : Rose α}, t.sub? p = some n → (modifyAt f p t).sub? p = some (f n)
  | [], t, n, h => by
      obtain rfl : t = n := by simpa using h
      simp
  | i :: p, t, n, h => by
      rw [sub?_cons] at h
      obtain ⟨c, hc, hn⟩ := Option.bind_eq_some_iff.mp h
      simp [List.getElem?_modify_eq, hc, sub?_modifyAt_self f hn]

/-! ## Walking by names -/

/-- A rewrite of one child that the keys do not see does not change the first match. -/
theorem firstMatch_modify {m : α → κ → Bool} {g : Rose α → Rose α}
    (hg : ∀ c k, m (g c).val k = m c.val k) (cs : List (Rose α)) (i : ℕ) (k : κ) :
    firstMatch m (cs.modify i g) k = firstMatch m cs k := by
  have hmap : ∀ l : List (Rose α), firstMatch m l k = (l.map fun c => m c.val k).findIdx? id :=
    fun l => by simp [firstMatch, List.findIdx?_map]
  rw [hmap, hmap, Pool.map_modify_of_eq (fun c => hg c k)]

/-- A matching child behind children that do not match is the first match. -/
theorem firstMatch_append_singleton {m : α → κ → Bool} {cs : List (Rose α)} {k : κ} {d : Rose α}
    (h : firstMatch m cs k = none) (hd : m d.val k = true) :
    firstMatch m (cs ++ [d]) k = some cs.length := by
  rw [firstMatch] at h ⊢
  rw [List.findIdx?_append, h, List.findIdx?_cons, if_pos hd]
  simp

/-- The first match is a child, and it matches. -/
theorem getElem?_of_firstMatch {m : α → κ → Bool} {cs : List (Rose α)} {k : κ} {i : ℕ}
    (h : firstMatch m cs k = some i) : ∃ c, cs[i]? = some c ∧ m c.val k = true := by
  obtain ⟨hi, hm, -⟩ := List.findIdx?_eq_some_iff_getElem.mp h
  exact ⟨cs[i], List.getElem?_eq_getElem hi, hm⟩

/-- No child before the first match matches. -/
theorem match_eq_false_of_le_firstMatch {m : α → κ → Bool} {cs : List (Rose α)} {k : κ} {i j : ℕ}
    {c : Rose α} (h : ∀ l, firstMatch m cs k = some l → i ≤ l) (hj : j < i)
    (hc : cs[j]? = some c) : m c.val k = false := by
  by_contra hmatch
  obtain ⟨hlt, rfl⟩ := List.getElem?_eq_some_iff.mp hc
  cases hl : firstMatch m cs k with
  | none =>
    exact absurd (List.findIdx?_eq_none_iff.mp hl _ (List.getElem_mem hlt)) hmatch
  | some l =>
    obtain ⟨_, -, hbefore⟩ := List.findIdx?_eq_some_iff_getElem.mp hl
    exact hmatch (by simpa using hbefore j (hj.trans_le (h l hl)))

@[simp] theorem resolve_nil (m : α → κ → Bool) (t : Rose α) : resolve m [] t = some [] := rfl

theorem resolve_cons (m : α → κ → Bool) (k : κ) (ks : List κ) (t : Rose α) :
    resolve m (k :: ks) t = (firstMatch m t.children k).bind fun i =>
      t.children[i]?.bind fun c => (resolve m ks c).map (i :: ·) := rfl

/-- The first level of a walk that arrives, and the rest of it. -/
theorem exists_of_resolve_cons {m : α → κ → Bool} {k : κ} {ks : List κ} {t : Rose α} {p : List ℕ}
    (h : resolve m (k :: ks) t = some p) :
    ∃ i c q, firstMatch m t.children k = some i ∧ t.children[i]? = some c ∧
      resolve m ks c = some q ∧ i :: q = p := by
  rw [resolve_cons] at h
  obtain ⟨i, hi, h⟩ := Option.bind_eq_some_iff.mp h
  obtain ⟨c, hc, h⟩ := Option.bind_eq_some_iff.mp h
  obtain ⟨q, hq, hp⟩ := Option.map_eq_some_iff.mp h
  exact ⟨i, c, q, hi, hc, hq, hp⟩

/-- A walk descends one level per key. -/
theorem length_of_resolve {m : α → κ → Bool} :
    ∀ {ks : List κ} {t : Rose α} {p : List ℕ}, resolve m ks t = some p → p.length = ks.length
  | [], _, p, h => by
      obtain rfl : [] = p := by simpa using h
      rfl
  | k :: ks, t, p, h => by
      obtain ⟨i, c, q, -, -, hq, rfl⟩ := exists_of_resolve_cons h
      simp [length_of_resolve hq]

/-- A walk ends at a node. -/
theorem exists_sub?_of_resolve {m : α → κ → Bool} :
    ∀ {ks : List κ} {t : Rose α} {p : List ℕ}, resolve m ks t = some p → ∃ n, t.sub? p = some n
  | [], t, p, h => by
      obtain rfl : [] = p := by simpa using h
      exact ⟨t, sub?_nil t⟩
  | k :: ks, t, p, h => by
      obtain ⟨i, c, q, -, hc, hq, rfl⟩ := exists_of_resolve_cons h
      obtain ⟨n, hn⟩ := exists_sub?_of_resolve hq
      exact ⟨n, by simp [hc, hn]⟩

/-- Every key of a walk matches a child of some node. -/
theorem exists_match_of_resolve {m : α → κ → Bool} {k : κ} :
    ∀ {ks : List κ} {t : Rose α} {p : List ℕ}, resolve m ks t = some p → k ∈ ks →
      ∃ q n, t.sub? q = some n ∧ ∃ c ∈ n.children, m c.val k = true
  | [], _, _, _, hk => by simp at hk
  | l :: ks, t, p, h, hk => by
      obtain ⟨i, c, q, hi, hc, hq, -⟩ := exists_of_resolve_cons h
      rcases List.mem_cons.mp hk with rfl | hk
      · obtain ⟨d, hd, hm⟩ := getElem?_of_firstMatch hi
        exact ⟨[], t, sub?_nil t, d, List.mem_of_getElem? hd, hm⟩
      · obtain ⟨r, n, hn, hmatch⟩ := exists_match_of_resolve hq hk
        exact ⟨i :: r, n, by simp [hc, hn], hmatch⟩

/-- **The last level of a walk** — the first match among the children of where the rest leads. -/
theorem resolve_append_singleton (m : α → κ → Bool) (k : κ) :
    ∀ {ks : List κ} {t n : Rose α} {p : List ℕ}, resolve m ks t = some p → t.sub? p = some n →
      resolve m (ks ++ [k]) t = (firstMatch m n.children k).map fun i => p ++ [i]
  | [], t, n, p, h, hn => by
      obtain rfl : [] = p := by simpa using h
      obtain rfl : t = n := by simpa using hn
      rw [List.nil_append, resolve_cons]
      cases hi : firstMatch m t.children k with
      | none => rfl
      | some i =>
        obtain ⟨c, hc, -⟩ := getElem?_of_firstMatch hi
        simp [hc]
  | l :: ks, t, n, p, h, hn => by
      obtain ⟨i, c, q, hi, hc, hq, rfl⟩ := exists_of_resolve_cons h
      have hn' : c.sub? q = some n := by simpa [hc] using hn
      rw [List.cons_append, resolve_cons, hi, Option.bind_some, hc, Option.bind_some,
        resolve_append_singleton m k hq hn', Option.map_map]
      rfl

/-- Rewriting at a position hides from the keys what the rewrite hides from them. -/
theorem match_modifyAt {m : α → κ → Bool} {f : Rose α → Rose α}
    (hf : ∀ n k, m (f n).val k = m n.val k) :
    ∀ (p : List ℕ) (t : Rose α) (k : κ), m (modifyAt f p t).val k = m t.val k
  | [], t, k => hf t k
  | _ :: _, _, _ => rfl

/-- **The frame fact.**  Rewriting the node a walk ends at keeps the walk, if the keys do not see
the rewrite. -/
theorem resolve_modifyAt {m : α → κ → Bool} {f : Rose α → Rose α}
    (hf : ∀ n k, m (f n).val k = m n.val k) :
    ∀ {ks : List κ} {t : Rose α} {p : List ℕ}, resolve m ks t = some p →
      resolve m ks (modifyAt f p t) = some p
  | [], t, p, h => by simpa using h
  | k :: ks, t, p, h => by
      obtain ⟨i, c, q, hi, hc, hq, rfl⟩ := exists_of_resolve_cons h
      rw [resolve_cons, children_modifyAt_cons, firstMatch_modify (match_modifyAt hf q), hi,
        Option.bind_some, List.getElem?_modify_eq, hc, Option.map_eq_map, Option.map_some,
        Option.bind_some, resolve_modifyAt hf hq]
      rfl

/-! ## Growing -/

/-- A rewrite that keeps a node's value and its children, and may add children behind them. -/
structure Grows (f : Rose α → Rose α) : Prop where
  val : ∀ n, (f n).val = n.val
  children : ∀ n, n.children <+: (f n).children

theorem firstMatch_grows {m : α → κ → Bool} {cs ds : List (Rose α)} {k : κ} {i : ℕ}
    (h : cs <+: ds) (hi : firstMatch m cs k = some i) : firstMatch m ds k = some i :=
  h.findIdx?_eq_some hi

theorem getElem?_grows {cs ds : List (Rose α)} {i : ℕ} {c : Rose α} (h : cs <+: ds)
    (hc : cs[i]? = some c) : ds[i]? = some c := by
  obtain ⟨es, rfl⟩ := h
  rw [List.getElem?_append_left (List.getElem?_eq_some_iff.mp hc).1, hc]

/-- What is at a position stays there when the tree grows… -/
theorem Grows.exists_sub?_modifyAt {f : Rose α → Rose α} (hf : Grows f) :
    ∀ {q : List ℕ} {p : List ℕ} {t n : Rose α}, t.sub? q = some n →
      ∃ n', (modifyAt f p t).sub? q = some n' ∧ n'.val = n.val
  | [], [], t, n, h => by
      obtain rfl : t = n := by simpa using h
      exact ⟨f t, by simp, hf.val t⟩
  | [], j :: p, t, n, h => by
      obtain rfl : t = n := by simpa using h
      exact ⟨modifyAt f (j :: p) t, by simp, rfl⟩
  | i :: q, [], t, n, h => by
      rw [sub?_cons] at h
      obtain ⟨c, hc, hn⟩ := Option.bind_eq_some_iff.mp h
      exact ⟨n, by simp [getElem?_grows (hf.children t) hc, hn], rfl⟩
  | i :: q, j :: p, t, n, h => by
      rw [sub?_cons] at h
      obtain ⟨c, hc, hn⟩ := Option.bind_eq_some_iff.mp h
      rw [sub?_cons, children_modifyAt_cons, List.getElem?_modify]
      obtain rfl | hij := eq_or_ne j i
      · simpa [hc] using hf.exists_sub?_modifyAt (p := p) hn
      · exact ⟨n, by simp [hc, hij, hn], rfl⟩

/-- …and every walk that arrived still arrives there. -/
theorem Grows.resolve_modifyAt {f : Rose α → Rose α} (hf : Grows f) {m : α → κ → Bool} :
    ∀ {ks : List κ} {p q : List ℕ} {t : Rose α}, resolve m ks t = some q →
      resolve m ks (modifyAt f p t) = some q
  | [], _, _, _, h => by simpa using h
  | k :: ks, p, q, t, h => by
      obtain ⟨i, c, q, hi, hc, hq, rfl⟩ := exists_of_resolve_cons h
      cases p with
      | nil =>
        rw [modifyAt_nil, resolve_cons, firstMatch_grows (hf.children t) hi, Option.bind_some,
          getElem?_grows (hf.children t) hc, Option.bind_some, hq, Option.map_some]
      | cons j p =>
        have hsame (n : Rose α) (k : κ) : m (f n).val k = m n.val k := by rw [hf.val n]
        rw [resolve_cons, children_modifyAt_cons, firstMatch_modify (match_modifyAt hsame p), hi,
          Option.bind_some, List.getElem?_modify, hc]
        obtain rfl | hij := eq_or_ne j i
        · simp [hf.resolve_modifyAt hq]
        · simp [hij, hq]

/-! ## Properties of all nodes -/

theorem val_modifyAt_of_val {f : Rose α → Rose α} (hf : ∀ n, (f n).val = n.val) :
    ∀ (p : List ℕ) (t : Rose α), (modifyAt f p t).val = t.val
  | [], t => hf t
  | _ :: _, _ => rfl

/-- **The invariant rule.**  A property of every node that sees no further than the values of its
children survives a rewrite at a position, if what the node there becomes has it throughout. -/
theorem forall_sub?_modifyAt {P : Rose α → Prop} {f : Rose α → Rose α}
    (hf : ∀ n, (f n).val = n.val)
    (hP : ∀ n i (g : Rose α → Rose α), (∀ c, (g c).val = c.val) → P n →
      P (node n.val (n.children.modify i g))) :
    ∀ {p : List ℕ} {t : Rose α}, (∀ {q n}, t.sub? q = some n → P n) →
      (∀ {n}, t.sub? p = some n → ∀ {q m}, (f n).sub? q = some m → P m) →
      ∀ {q n}, (modifyAt f p t).sub? q = some n → P n
  | [], t, _, hnew, _, _, h => hnew (sub?_nil t) h
  | i :: p, t, ht, _, [], n, h => by
      obtain rfl := Option.some.inj ((sub?_nil _).symm.trans h)
      exact hP t i (modifyAt f p) (val_modifyAt_of_val hf p) (ht (sub?_nil t))
  | i :: p, t, ht, hnew, j :: q, n, h => by
      rw [sub?_cons, children_modifyAt_cons, List.getElem?_modify] at h
      obtain ⟨d, hd, hn⟩ := Option.bind_eq_some_iff.mp h
      obtain ⟨c, hc, rfl⟩ := Option.map_eq_some_iff.mp hd
      have hbelow : ∀ {r m}, c.sub? r = some m → P m :=
        fun {r} _ hm => ht (q := j :: r) (by simp [hc, hm])
      by_cases hij : i = j
      · subst hij
        simp only [if_true] at hn
        exact forall_sub?_modifyAt hf hP hbelow (fun hn' => hnew (by simp [hc, hn'])) hn
      · simp only [hij, if_false] at hn
        exact hbelow hn

/-! ## Walking along a position -/

/-- The keys of the nodes on the way to a position. -/
def trail (f : α → κ) : Rose α → List ℕ → List κ
  | _, [] => []
  | t, i :: p => t.children[i]?.elim [] fun c => f c.val :: c.trail f p

@[simp] theorem trail_nil (f : α → κ) (t : Rose α) : t.trail f [] = [] := by rw [trail]

theorem trail_cons {f : α → κ} {t c : Rose α} {i : ℕ} (h : t.children[i]? = some c) (p : List ℕ) :
    t.trail f (i :: p) = f c.val :: c.trail f p := by rw [trail, h, Option.elim_some]

/-- Every key on the way is the key of a child of some node. -/
theorem exists_of_mem_trail {f : α → κ} {k : κ} :
    ∀ {p : List ℕ} {t : Rose α}, k ∈ t.trail f p →
      ∃ q n, t.sub? q = some n ∧ ∃ c ∈ n.children, f c.val = k
  | [], t, h => by simp at h
  | i :: p, t, h => by
      cases hc : t.children[i]? with
      | none =>
        rw [trail, hc] at h
        simp at h
      | some c =>
        rw [trail_cons hc] at h
        rcases List.mem_cons.mp h with rfl | h
        · exact ⟨[], t, sub?_nil t, c, List.mem_of_getElem? hc, rfl⟩
        · obtain ⟨q, n, hn, hk⟩ := exists_of_mem_trail h
          exact ⟨i :: q, n, by simp [hc, hn], hk⟩

/-- **Walking back.**  Where every child is the first match of its own key, the keys on the way to a
node lead to it. -/
theorem resolve_trail {m : α → κ → Bool} {f : α → κ} :
    ∀ {p : List ℕ} {t n : Rose α},
      (∀ q n, t.sub? q = some n → ∀ i c, n.children[i]? = some c →
        firstMatch m n.children (f c.val) = some i) →
      t.sub? p = some n → resolve m (t.trail f p) t = some p
  | [], t, n, _, _ => by simp
  | i :: p, t, n, hfirst, h => by
      rw [sub?_cons] at h
      obtain ⟨c, hc, hn⟩ := Option.bind_eq_some_iff.mp h
      have hrest : resolve m (c.trail f p) c = some p :=
        resolve_trail (fun q n' hn' => hfirst (i :: q) n' (by simp [hc, hn'])) hn
      rw [trail_cons hc, resolve_cons, hfirst [] t (sub?_nil t) i c hc, Option.bind_some, hc,
        Option.bind_some, hrest, Option.map_some]

/-- A child no earlier sibling shares the key of is the first match of its key. -/
theorem firstMatch_eq_some_of_pairwise {m : α → κ → Bool} {cs : List (Rose α)} {k : κ} {i : ℕ}
    {c : Rose α} (hc : cs[i]? = some c) (hm : m c.val k = true)
    (hother : ∀ j d, j < i → cs[j]? = some d → m d.val k = false) :
    firstMatch m cs k = some i := by
  obtain ⟨hi, rfl⟩ := List.getElem?_eq_some_iff.mp hc
  refine List.findIdx?_eq_some_iff_getElem.mpr ⟨hi, hm, fun j hj => ?_⟩
  have := hother j cs[j] hj (List.getElem?_eq_getElem (by omega))
  simpa using this

theorem firstMatch_eq_none {m : α → κ → Bool} {cs : List (Rose α)} {k : κ} :
    firstMatch m cs k = none ↔ ∀ c ∈ cs, m c.val k = false := by
  simp [firstMatch]

end Rose
