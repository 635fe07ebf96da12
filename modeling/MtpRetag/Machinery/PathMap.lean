import MtpRetag.Machinery.Rose

/-!
# Machinery/PathMap — what a tree holds, by the keys that lead there

A **path map** says what lies at each list of keys.  Its edits are `put`, `add`, `remove` and
`alter`; over a sequence of them, what no edit overwrites stays (`edit_of_isSome`), and what none
creates stays away (`edit_of_none`).

`Rose.look` reads an ordered tree as a path map, taking the *first* child of each key.
`look_modifyAt` says what a rewrite of one node does to the map, and from it each edit of a list of
children is one edit of the map.
-/

/-- What lies at each path. -/
abbrev PathMap (κ α : Type*) := List κ → Option α

namespace PathMap

variable {κ α : Type*}

/-- Nothing lies below a path that leads nowhere. -/
def Closed (m : PathMap κ α) : Prop := ∀ {ks q}, m ks = none → ks <+: q → m q = none

/-- Neither path leads to the other. -/
def Apart (ks ls : List κ) : Prop := ¬ ks <+: ls ∧ ¬ ls <+: ks

theorem Apart.symm {ks ls : List κ} (h : Apart ks ls) : Apart ls ks := ⟨h.2, h.1⟩

theorem Apart.ne {ks ls : List κ} (h : Apart ks ls) : ks ≠ ls := by
  rintro rfl
  exact h.1 List.prefix_rfl

/-- Nothing is below both of two paths that lie apart. -/
theorem Apart.not_prefix {ks ls q : List κ} (h : Apart ks ls) (hq : ks <+: q) : ¬ ls <+: q := by
  intro hl
  exact (List.prefix_or_prefix_of_prefix hq hl).elim h.1 h.2

/-- Paths of one length are equal or lie apart. -/
theorem apart_of_length_eq {ks ls : List κ} (hlen : ks.length = ls.length) (hne : ks ≠ ls) :
    Apart ks ls :=
  ⟨fun h => hne (h.eq_of_length hlen), fun h => hne (h.eq_of_length hlen.symm).symm⟩

/-- A path does not lead back. -/
theorem not_append_prefix {ks ls : List κ} (h : ls ≠ []) : ¬ ks ++ ls <+: ks := fun hpre =>
  h (List.self_eq_append_right.mp (hpre.eq_of_length_le (by simp)).symm)

variable [DecidableEq κ]

/-! ## Edits -/

/-- One value at a path, and nothing below it. -/
def put (m : PathMap κ α) (ks : List κ) (a : α) : PathMap κ α := fun q =>
  if q = ks then some a else if ks <+: q then none else m q

/-- A value at a path that leads nowhere. -/
def add (m : PathMap κ α) (ks : List κ) (a : α) : PathMap κ α := fun q =>
  if q = ks then (m q).or (some a) else m q

/-- Nothing at a path and below it; what is at the root stays. -/
def remove (m : PathMap κ α) (ks : List κ) : PathMap κ α := fun q =>
  if ks <+: q ∧ q ≠ [] then none else m q

/-- Another value in the place of the one at a path. -/
def alter (m : PathMap κ α) (ks : List κ) (f : α → α) : PathMap κ α := fun q =>
  if q = ks then (m q).map f else m q

variable {m : PathMap κ α} {ks q : List κ} {a : α}

@[simp] theorem put_self : m.put ks a ks = some a := by simp [put]

theorem put_of_not_prefix (h : ¬ ks <+: q) : m.put ks a q = m q := by
  have hne : q ≠ ks := by
    rintro rfl
    exact h List.prefix_rfl
  rw [put, if_neg hne, if_neg h]

theorem put_below (h : ks <+: q) (hne : q ≠ ks) : m.put ks a q = none := by
  rw [put, if_neg hne, if_pos h]

theorem add_of_ne (h : q ≠ ks) : m.add ks a q = m q := by rw [add, if_neg h]

/-- What an `add` finds stays… -/
theorem add_of_isSome (h : (m ks).isSome) : m.add ks a = m := by
  funext q
  by_cases hq : q = ks
  · subst hq
    rw [add, if_pos rfl, Option.or_of_isSome h]
  · rw [add_of_ne hq]

/-- …and where nothing lies, it is a `put`. -/
theorem Closed.add_of_none (hm : m.Closed) (h : m ks = none) : m.add ks a = m.put ks a := by
  funext q
  by_cases hq : q = ks
  · subst hq
    simp [add, h]
  · rw [add_of_ne hq, put, if_neg hq]
    split
    case isTrue hpre => exact hm h hpre
    case isFalse => rfl

theorem remove_of_prefix (h : ks <+: q) (hq : q ≠ []) : m.remove ks q = none := by
  rw [remove, if_pos ⟨h, hq⟩]

theorem remove_of_not_prefix (h : ¬ ks <+: q) : m.remove ks q = m q := by
  rw [remove, if_neg fun h' => h h'.1]

theorem alter_of_ne {f : α → α} (h : q ≠ ks) : m.alter ks f q = m q := by rw [alter, if_neg h]

/-! ## Sequences of edits -/

/-- One edit of a map. -/
inductive Edit (κ α : Type*)
  | put (ks : List κ) (a : α)
  | add (ks : List κ) (a : α)
  | remove (ks : List κ)
  | alter (ks : List κ) (f : α → α)

namespace Edit

def apply (m : PathMap κ α) : Edit κ α → PathMap κ α
  | .put ks a => m.put ks a
  | .add ks a => m.add ks a
  | .remove ks => m.remove ks
  | .alter ks f => m.alter ks f

/-- An edit replaces or takes away what lies at a path. -/
def Overwrites : Edit κ α → List κ → Prop
  | .put ks _, q => ks <+: q
  | .add _ _, _ => False
  | .remove ks, q => ks <+: q
  | .alter ks _, q => q = ks

/-- An edit brings something to a path that leads nowhere. -/
def Creates : Edit κ α → List κ → Prop
  | .put ks _, q => q = ks
  | .add ks _, q => q = ks
  | .remove _, _ => False
  | .alter _ _, _ => False

/-- The path an edit is made at. -/
def site : Edit κ α → List κ
  | .put ks _ => ks
  | .add ks _ => ks
  | .remove ks => ks
  | .alter ks _ => ks

/-- What an edit leaves at a path depends on what was there, and on nothing else. -/
theorem apply_congr (e : Edit κ α) {m m' : PathMap κ α} (h : m q = m' q) :
    e.apply m q = e.apply m' q := by
  cases e with
  | put ks a => rw [apply, apply, PathMap.put, PathMap.put, h]
  | add ks a => rw [apply, apply, PathMap.add, PathMap.add, h]
  | remove ks => rw [apply, apply, PathMap.remove, PathMap.remove, h]
  | alter ks f => rw [apply, apply, PathMap.alter, PathMap.alter, h]

/-- Only what is at its site or below is changed. -/
theorem apply_of_not_prefix {e : Edit κ α} (h : ¬ e.site <+: q) : e.apply m q = m q := by
  have hne : q ≠ e.site := by
    rintro rfl
    exact h List.prefix_rfl
  cases e with
  | put ks a => exact put_of_not_prefix h
  | add ks a => exact add_of_ne hne
  | remove ks => exact remove_of_not_prefix h
  | alter ks f => exact alter_of_ne hne

/-- **Edits that lie apart commute.** -/
theorem apply_comm {e f : Edit κ α} (h : Apart e.site f.site) :
    f.apply (e.apply m) = e.apply (f.apply m) := by
  funext q
  by_cases he : e.site <+: q
  · have hf : ∀ m : PathMap κ α, f.apply m q = m q := fun m =>
      apply_of_not_prefix (h.not_prefix he)
    rw [hf, e.apply_congr (hf m).symm]
  · have he' : ∀ m : PathMap κ α, e.apply m q = m q := fun m => apply_of_not_prefix he
    rw [he', f.apply_congr (he' m)]

/-- What an edit does not overwrite stays… -/
theorem apply_of_isSome {e : Edit κ α} (h : (m q).isSome) (he : ¬ e.Overwrites q) :
    e.apply m q = m q := by
  cases e with
  | put ks a => exact put_of_not_prefix he
  | add ks a =>
    by_cases hq : q = ks
    · subst hq
      rw [apply, add_of_isSome h]
    · exact add_of_ne hq
  | remove ks => exact remove_of_not_prefix he
  | alter ks f => exact alter_of_ne he

/-- …and where it creates nothing, nothing appears. -/
theorem apply_of_none {e : Edit κ α} (h : m q = none) (he : ¬ e.Creates q) :
    e.apply m q = none := by
  cases e with
  | put ks a =>
    by_cases hpre : ks <+: q
    · exact put_below hpre he
    · rw [apply, put_of_not_prefix hpre, h]
  | add ks a => rw [apply, add_of_ne he, h]
  | remove ks =>
    rw [apply, PathMap.remove]
    split
    · rfl
    · exact h
  | alter ks f =>
    rw [apply, PathMap.alter, h]
    exact ite_self none

end Edit

/-- A sequence of edits. -/
def edit (m : PathMap κ α) (es : List (Edit κ α)) : PathMap κ α := es.foldl Edit.apply m

@[simp] theorem edit_nil : m.edit [] = m := rfl

@[simp] theorem edit_cons (e : Edit κ α) (es : List (Edit κ α)) :
    m.edit (e :: es) = (e.apply m).edit es := rfl

theorem edit_append (es fs : List (Edit κ α)) : m.edit (es ++ fs) = (m.edit es).edit fs :=
  List.foldl_append

/-- **What is not overwritten stays.** -/
theorem edit_of_isSome :
    ∀ {es : List (Edit κ α)} {m : PathMap κ α}, (m q).isSome → (∀ e ∈ es, ¬ e.Overwrites q) →
      m.edit es q = m q
  | [], _, _, _ => rfl
  | e :: es, m, h, hes => by
      obtain ⟨he, hrest⟩ := List.forall_mem_cons.mp hes
      have heq : e.apply m q = m q := Edit.apply_of_isSome h he
      rw [edit_cons, edit_of_isSome (by rwa [heq]) hrest, heq]

/-- **What is not created stays away.** -/
theorem edit_of_none :
    ∀ {es : List (Edit κ α)} {m : PathMap κ α}, m q = none → (∀ e ∈ es, ¬ e.Creates q) →
      m.edit es q = none
  | [], _, h, _ => h
  | e :: es, m, h, hes => by
      obtain ⟨he, hrest⟩ := List.forall_mem_cons.mp hes
      rw [edit_cons, edit_of_none (Edit.apply_of_none h he) hrest]

/-- What the last edit of a path puts there. -/
theorem edit_put_append {es fs : List (Edit κ α)} (hfs : ∀ e ∈ fs, ¬ e.Overwrites ks) :
    m.edit (es ++ .put ks a :: fs) ks = some a := by
  have hput : (Edit.put ks a).apply (m.edit es) ks = some a := put_self
  rw [edit_append, edit_cons, edit_of_isSome (by rw [hput]; rfl) hfs, hput]

/-- What edits that overwrite nothing add is there behind them… -/
theorem edit_add_isSome {es : List (Edit κ α)} (hes : ∀ e ∈ es, ¬ e.Overwrites ks)
    (hmem : .add ks a ∈ es) : (m.edit es ks).isSome := by
  obtain ⟨fs, gs, rfl⟩ := List.append_of_mem hmem
  have hadd : ((Edit.add ks a).apply (m.edit fs) ks).isSome := by simp [Edit.apply, add]
  rw [edit_append, edit_cons, edit_of_isSome hadd fun e he => hes e (by simp [he])]
  exact hadd

/-- …and adding what is there changes nothing. -/
theorem edit_adds_eq_self :
    ∀ {es : List (Edit κ α)}, (∀ e ∈ es, ∃ ks a, e = .add ks a ∧ (m ks).isSome) → m.edit es = m
  | [], _ => rfl
  | e :: es, h => by
      obtain ⟨⟨ks, a, rfl, hsome⟩, hrest⟩ := List.forall_mem_cons.mp h
      rw [edit_cons, Edit.apply, add_of_isSome hsome, edit_adds_eq_self hrest]

/-- The order of edits that lie apart does not matter. -/
theorem edit_perm {es fs : List (Edit κ α)} (hperm : es.Perm fs)
    (h : ∀ e ∈ es, ∀ f ∈ es, e = f ∨ Apart e.site f.site) : m.edit es = m.edit fs := by
  refine hperm.foldl_eq' (fun e he f hf m => ?_) m
  rcases h e he f hf with rfl | hapart
  · rfl
  · exact Edit.apply_comm hapart

/-! ## Parts and views -/

/-- What lies below a path. -/
def below (m : PathMap κ α) (base : List κ) : PathMap κ α := fun q => m (base ++ q)

omit [DecidableEq κ] in
theorem below_apply (m : PathMap κ α) (base q : List κ) : m.below base q = m (base ++ q) := rfl

theorem below_put (base : List κ) :
    (m.put (base ++ ks) a).below base = (m.below base).put ks a := by
  funext q
  simp only [below, put, List.append_cancel_left_eq, List.prefix_append_right_inj]

theorem below_add (base : List κ) :
    (m.add (base ++ ks) a).below base = (m.below base).add ks a := by
  funext q
  simp only [below, add, List.append_cancel_left_eq]

theorem below_remove (base : List κ) (hks : ks ≠ []) :
    (m.remove (base ++ ks)).below base = (m.below base).remove ks := by
  funext q
  by_cases hpre : ks <+: q
  · have hq : q ≠ [] := fun hnil => hks (List.prefix_nil.mp (hnil ▸ hpre))
    have hne : base ++ q ≠ [] := fun hnil => hq (List.append_eq_nil_iff.mp hnil).2
    have hbase : base ++ ks <+: base ++ q := (List.prefix_append_right_inj base).mpr hpre
    calc (m.remove (base ++ ks)).below base q
      _ = none := remove_of_prefix hbase hne
      _ = (m.below base).remove ks q := Eq.symm <| remove_of_prefix hpre hq
  · have hbase : ¬ base ++ ks <+: base ++ q := fun h =>
      hpre ((List.prefix_append_right_inj base).mp h)
    calc (m.remove (base ++ ks)).below base q
      _ = m.below base q := remove_of_not_prefix hbase
      _ = (m.below base).remove ks q := Eq.symm <| remove_of_not_prefix hpre

variable {β : Type*}

/-- What a map says of its entries. -/
def view (m : PathMap κ α) (f : α → β) : PathMap κ β := fun q => (m q).map f

theorem view_put (f : α → β) : (m.put ks a).view f = (m.view f).put ks (f a) := by
  funext q
  simp only [view, put]
  split_ifs <;> rfl

theorem view_add (f : α → β) : (m.add ks a).view f = (m.view f).add ks (f a) := by
  funext q
  simp only [view, add]
  split_ifs
  · cases m q <;> rfl
  · rfl

theorem view_remove (f : α → β) : (m.remove ks).view f = (m.view f).remove ks := by
  funext q
  simp only [view, remove]
  split_ifs <;> rfl

end PathMap

namespace Rose

variable {α κ ν : Type*} [DecidableEq κ] {key : α → κ}

/-- A tree as a path map: the first child of each key. -/
def look (key : α → κ) : Rose α → PathMap κ α
  | t, [] => some t.val
  | t, k :: ks => (t.children.find? fun c => key c.val = k).bind fun c => look key c ks

@[simp] theorem look_nil (t : Rose α) : t.look key [] = some t.val := by rw [look]

theorem look_cons (t : Rose α) (k : κ) (ks : List κ) :
    t.look key (k :: ks) =
      (t.children.find? fun c => key c.val = k).bind fun c => c.look key ks := by rw [look]

theorem closed_look : ∀ {t : Rose α}, PathMap.Closed (t.look key) := by
  intro t ks
  induction ks generalizing t with
  | nil => intro q h; simp at h
  | cons k ks ih =>
    rintro q h ⟨ls, rfl⟩
    rw [List.cons_append, look_cons] at *
    cases hc : t.children.find? fun c => key c.val = k with
    | none => simp
    | some c =>
      rw [hc, Option.bind_some] at h
      exact ih h (List.prefix_append ks ls)

section Match

variable {m : α → ν → Bool} {g : ν → κ}

/-- The first match, as a child. -/
theorem find?_eq_of_firstMatch (hm : ∀ a k, m a k = decide (key a = g k)) (cs : List (Rose α))
    (k : ν) :
    (cs.find? fun c => key c.val = g k) = (firstMatch m cs k).bind fun i => cs[i]? := by
  induction cs with
  | nil => rfl
  | cons c cs ih =>
    rw [firstMatch, List.findIdx?_cons, List.find?_cons, hm]
    by_cases h : key c.val = g k
    · simp [h]
    · rw [ih, firstMatch]
      simp [h, Option.bind_map]

theorem find?_of_firstMatch (hm : ∀ a k, m a k = decide (key a = g k)) {cs : List (Rose α)} {k : ν}
    {i : ℕ} {c : Rose α} (hi : firstMatch m cs k = some i) (hc : cs[i]? = some c) :
    (cs.find? fun c => key c.val = g k) = some c := by
  rw [find?_eq_of_firstMatch hm, hi, Option.bind_some, hc]

/-- Behind a walk, the map of a tree is that of the node where the walk ends. -/
theorem look_append (hm : ∀ a k, m a k = decide (key a = g k)) :
    ∀ {ks : List ν} {t n : Rose α} {p : List ℕ}, resolve m ks t = some p → t.sub? p = some n →
      ∀ q, t.look key (ks.map g ++ q) = n.look key q
  | [], t, n, p, hp, hn, q => by
      obtain rfl : [] = p := by simpa using hp
      obtain rfl : t = n := by simpa using hn
      rfl
  | k :: ks, t, n, p, hp, hn, q => by
      obtain ⟨i, c, p, hi, hc, hp', rfl⟩ := exists_of_resolve_cons hp
      have hn' : c.sub? p = some n := by simpa [hc] using hn
      rw [List.map_cons, List.cons_append, look_cons, find?_of_firstMatch hm hi hc,
        Option.bind_some, look_append hm hp' hn']

/-- **The map says what the walk finds.** -/
theorem look_map (hm : ∀ a k, m a k = decide (key a = g k)) :
    ∀ (ks : List ν) (t : Rose α),
      t.look key (ks.map g) = ((resolve m ks t).bind t.sub?).map val
  | [], t => by simp
  | k :: ks, t => by
      rw [List.map_cons, look_cons, find?_eq_of_firstMatch hm, resolve_cons]
      cases hi : firstMatch m t.children k with
      | none => rfl
      | some i =>
        obtain ⟨c, hc, -⟩ := getElem?_of_firstMatch hi
        have hsub : t.sub? ∘ (i :: ·) = c.sub? := by
          funext p
          simp [hc]
        simp only [Option.bind_some, hc]
        rw [look_map hm ks c, Option.bind_map, hsub]

/-- A walk that does not arrive goes no further. -/
theorem resolve_append_of_none :
    ∀ {ks : List ν} {t : Rose α} {ls : List ν}, resolve m ks t = none →
      resolve m (ks ++ ls) t = none
  | [], _, _, h => by simp at h
  | k :: ks, t, ls, h => by
      rw [List.cons_append, resolve_cons]
      cases hi : firstMatch m t.children k with
      | none => rfl
      | some i =>
        obtain ⟨c, hc, -⟩ := getElem?_of_firstMatch hi
        have hnone : resolve m ks c = none := by simpa [resolve_cons, hi, hc] using h
        simp [hc, resolve_append_of_none hnone]

/-! ## Rewriting a node -/

/-- A rewrite of the first child of a key that keeps the key. -/
theorem find?_modify {f : Rose α → Rose α} {k : κ} :
    ∀ {cs : List (Rose α)} {i : ℕ} {c : Rose α},
      cs.findIdx? (fun c => key c.val = k) = some i → cs[i]? = some c → key (f c).val = k →
      ∀ l, (cs.modify i f).find? (fun c => key c.val = l) =
        if l = k then some (f c) else cs.find? fun c => key c.val = l
  | [], i, c, hi, _, _, _ => by simp at hi
  | d :: cs, i, c, hi, hc, hf, l => by
      rw [List.findIdx?_cons] at hi
      by_cases hd : key d.val = k
      · -- the rewritten child comes first
        obtain rfl : 0 = i := by simpa [hd] using hi
        obtain rfl : d = c := by simpa using hc
        by_cases hl : l = k
        · simp [hl, hf]
        · have hkl : ¬ k = l := fun h => hl h.symm
          simp [hl, hf, hd, hkl]
      · obtain ⟨j, hj, rfl⟩ : ∃ j, cs.findIdx? (fun c => key c.val = k) = some j ∧ j + 1 = i := by
          simpa [hd] using hi
        have ih := find?_modify (f := f) hj (by simpa using hc) hf l
        rw [List.modify_succ_cons, List.find?_cons, List.find?_cons, ih]
        by_cases hl : l = k
        · subst hl
          simp [hd]
        · simp [hl]

/-- **What a rewrite does to the map.**  Behind the keys of the rewritten node, the map is that of
the new node; elsewhere it is what it was. -/
theorem look_modifyAt (hm : ∀ a k, m a k = decide (key a = g k)) {f : Rose α → Rose α}
    (hf : ∀ n, key (f n).val = key n.val) :
    ∀ {ks : List ν} {t n : Rose α} {p : List ℕ}, resolve m ks t = some p → t.sub? p = some n →
      ∀ q, (modifyAt f p t).look key q =
        if ks.map g <+: q then (f n).look key (q.drop ks.length) else t.look key q
  | [], t, n, p, hp, hn, q => by
      obtain rfl : [] = p := by simpa using hp
      obtain rfl : t = n := by simpa using hn
      simp
  | k :: ks, t, n, p, hp, hn, [] => by
      obtain ⟨i, c, p, -, -, -, rfl⟩ := exists_of_resolve_cons hp
      simp
  | k :: ks, t, n, p, hp, hn, l :: q => by
      obtain ⟨i, c, p, hi, hc, hp', rfl⟩ := exists_of_resolve_cons hp
      obtain ⟨d, hd, hmatch⟩ := getElem?_of_firstMatch hi
      obtain rfl : c = d := Option.some.inj (hc.symm.trans hd)
      have hkey : key c.val = g k := by simpa [hm] using hmatch
      have hnew : key (modifyAt f p c).val = g k := by
        cases p with
        | nil => exact (hf c).trans hkey
        | cons j p => exact hkey
      have hfirst : t.children.findIdx? (fun c => key c.val = g k) = some i := by
        simpa [firstMatch, hm] using hi
      have hn' : c.sub? p = some n := by simpa [hc] using hn
      rw [look_cons, children_modifyAt_cons, find?_modify hfirst hc hnew]
      by_cases hl : l = g k
      · subst hl
        rw [if_pos rfl, Option.bind_some, look_modifyAt hm hf hp' hn' q, look_cons,
          find?_of_firstMatch hm hi hc]
        simp [List.cons_prefix_cons]
      · have hpre : ¬ (k :: ks).map g <+: l :: q := fun h => hl (List.cons_prefix_cons.mp h).1.symm
        rw [if_neg hl, if_neg hpre, look_cons]

/-- **Edits of a node.**  An edit of the map of a node, at a path of its own, is one of the map of
the tree. -/
theorem look_modifyAt_eq (hm : ∀ a k, m a k = decide (key a = g k)) {f : Rose α → Rose α}
    (hf : ∀ n, key (f n).val = key n.val) {ks : List ν} {t n : Rose α} {p : List ℕ}
    (hp : resolve m ks t = some p) (hn : t.sub? p = some n) {m' : PathMap κ α}
    (hbelow : ∀ r, (f n).look key r = m' (ks.map g ++ r))
    (helse : ∀ q, ¬ ks.map g <+: q → m' q = t.look key q) :
    (modifyAt f p t).look key = m' := by
  funext q
  rw [look_modifyAt hm hf hp hn]
  split
  case isTrue h =>
    obtain ⟨r, rfl⟩ := h
    rw [← hbelow]
    congr 1
    simp
  case isFalse h => exact (helse q h).symm

/-- Another value under the same key. -/
theorem look_modifyAt_val (hm : ∀ a k, m a k = decide (key a = g k)) {f : α → α}
    (hf : ∀ a, key (f a) = key a) {ks : List ν} {t n : Rose α} {p : List ℕ}
    (hp : resolve m ks t = some p) (hn : t.sub? p = some n) :
    (modifyAt (fun n => node (f n.val) n.children) p t).look key =
      (t.look key).alter (ks.map g) f := by
  refine look_modifyAt_eq hm (f := fun n => node (f n.val) n.children) (fun n => hf n.val) hp hn
    (fun r => ?_) fun q h => ?_
  · rw [PathMap.alter, look_append hm hp hn]
    cases r with
    | nil => simp
    | cons l r => simp [look_cons]
  · exact PathMap.alter_of_ne fun hq => h (hq ▸ List.prefix_rfl)

/-! ## Editing a list of children -/

/-- One leaf in the place of the first child of a key… -/
theorem look_modifyAt_put (hm : ∀ a k, m a k = decide (key a = g k)) {f : Rose α → Rose α}
    (hf : ∀ n, (f n).val = n.val) {ks : List ν} {t n : Rose α} {p : List ℕ} {a : α}
    (hp : resolve m ks t = some p) (hn : t.sub? p = some n)
    (hfind : ∀ l, (f n).children.find? (fun c => key c.val = l) =
      if l = key a then some (node a []) else n.children.find? fun c => key c.val = l) :
    (modifyAt f p t).look key = (t.look key).put (ks.map g ++ [key a]) a := by
  refine look_modifyAt_eq hm (fun n => congrArg key (hf n)) hp hn (fun r => ?_) fun q h => ?_
  · rw [PathMap.put, look_append hm hp hn]
    cases r with
    | nil => simp [hf, PathMap.not_append_prefix]
    | cons l r =>
      rw [look_cons, hfind, look_cons]
      by_cases hl : l = key a
      · subst hl
        cases r with
        | nil => simp
        | cons l r => simp [look_cons, List.prefix_append_right_inj]
      · have hl' : ¬ key a = l := fun h => hl h.symm
        simp [hl, hl', List.prefix_append_right_inj, List.cons_prefix_cons]
  · exact PathMap.put_of_not_prefix fun h' => h ((List.prefix_append _ _).trans h')

/-- …or no child. -/
theorem look_modifyAt_remove (hm : ∀ a k, m a k = decide (key a = g k)) {f : Rose α → Rose α}
    (hf : ∀ n, (f n).val = n.val) {ks : List ν} {t n : Rose α} {p : List ℕ} {k : κ}
    (hp : resolve m ks t = some p) (hn : t.sub? p = some n)
    (hfind : ∀ l, (f n).children.find? (fun c => key c.val = l) =
      if l = k then none else n.children.find? fun c => key c.val = l) :
    (modifyAt f p t).look key = (t.look key).remove (ks.map g ++ [k]) := by
  refine look_modifyAt_eq hm (fun n => congrArg key (hf n)) hp hn (fun r => ?_) fun q h => ?_
  · rw [PathMap.remove, look_append hm hp hn]
    cases r with
    | nil => simp [hf, PathMap.not_append_prefix]
    | cons l r =>
      rw [look_cons, hfind, look_cons]
      by_cases hl : l = k
      · simp [hl, List.prefix_append_right_inj, List.cons_prefix_cons]
      · have hl' : ¬ k = l := fun h => hl h.symm
        simp [hl, hl', List.prefix_append_right_inj, List.cons_prefix_cons]
  · exact PathMap.remove_of_not_prefix fun h' => h ((List.prefix_append _ _).trans h')

/-- A leaf behind the children is an `add`: a child that has its key stays the first one. -/
theorem look_modifyAt_append (hm : ∀ a k, m a k = decide (key a = g k)) {ks : List ν}
    {t n : Rose α} {p : List ℕ} (a : α) (hp : resolve m ks t = some p) (hn : t.sub? p = some n) :
    (modifyAt (fun n => node n.val (n.children ++ [node a []])) p t).look key =
      (t.look key).add (ks.map g ++ [key a]) a := by
  have hat : t.look key (ks.map g ++ [key a]) =
      (n.children.find? fun c => key c.val = key a).map val := by
    rw [look_append hm hp hn, look_cons, Option.map_eq_bind]
    exact congrArg _ (funext fun c => look_nil c)
  cases hfind : n.children.find? fun c => key c.val = key a with
  | none =>
    rw [closed_look.add_of_none (by rw [hat, hfind]; rfl)]
    refine look_modifyAt_put hm (f := fun n => node n.val (n.children ++ [node a []]))
      (fun _ => rfl) hp hn fun l => ?_
    rw [children_node, List.find?_append]
    by_cases hl : l = key a
    · simp [hl, hfind]
    · have hl' : ¬ key a = l := fun h => hl h.symm
      simp [hl, hl']
  | some d =>
    rw [PathMap.add_of_isSome (by rw [hat, hfind]; rfl)]
    refine look_modifyAt_eq hm (f := fun n => node n.val (n.children ++ [node a []]))
      (fun _ => rfl) hp hn (fun r => ?_) fun _ _ => rfl
    rw [look_append hm hp hn]
    cases r with
    | nil => simp
    | cons l r =>
      rw [look_cons, look_cons, children_node, List.find?_append]
      by_cases hl : l = key a
      · simp [hl, hfind]
      · have hl' : ¬ key a = l := fun h => hl h.symm
        simp [hl']

/-- Erasing a child hides no child of another key… -/
theorem find?_eraseIdx_of_ne :
    ∀ {cs : List (Rose α)} {i : ℕ} {c : Rose α}, cs[i]? = some c → ∀ {l : κ}, l ≠ key c.val →
      (cs.eraseIdx i).find? (fun c => key c.val = l) = cs.find? fun c => key c.val = l
  | [], _, _, hc, _, _ => by simp at hc
  | d :: cs, 0, c, hc, l, hl => by
      obtain rfl : d = c := by simpa using hc
      have hl' : ¬ key d.val = l := fun h => hl h.symm
      simp [hl']
  | d :: cs, i + 1, c, hc, l, hl => by
      rw [List.eraseIdx_cons_succ, List.find?_cons, List.find?_cons,
        find?_eraseIdx_of_ne (by simpa using hc) hl]

/-- …and the only child of its key is gone. -/
theorem find?_eraseIdx_self :
    ∀ {cs : List (Rose α)} {i : ℕ} {c : Rose α}, (cs.map fun c => key c.val).Nodup →
      cs[i]? = some c → (cs.eraseIdx i).find? (fun d => key d.val = key c.val) = none
  | [], _, _, _, hc => by simp at hc
  | d :: cs, 0, c, hnodup, hc => by
      obtain rfl : d = c := by simpa using hc
      simpa using (List.nodup_cons.mp hnodup).1
  | d :: cs, i + 1, c, hnodup, hc => by
      have hc' : cs[i]? = some c := by simpa using hc
      obtain ⟨hd, hrest⟩ := List.nodup_cons.mp hnodup
      have hne : key d.val ≠ key c.val := fun h =>
        hd (List.mem_map.mpr ⟨c, List.mem_of_getElem? hc', h.symm⟩)
      rw [List.eraseIdx_cons_succ, List.find?_cons, find?_eraseIdx_self hrest hc']
      simp [hne]

end Match

end Rose
