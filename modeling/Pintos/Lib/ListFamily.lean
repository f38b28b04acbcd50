import Pintos.Lib.KernelList

/-!
# Lib/ListFamily — lists that share a memory

Many lists have their nodes in one memory, and each call changes one or two of them. A family
of lists is well-formed, and no node is in two of them. A range that is cut out of one list is
free, and a free chain is pasted into any list; a splice is a cut and a paste.
-/

namespace Pintos.KernelList

open Machinery Function List

variable {ι α : Type}

/-- A family of lists, with their elements. -/
structure Family (h : Links α) (lists : ι → KernelList α) (S : ι → List α) : Prop where
  wellFormed : ∀ i, WellFormed h (lists i) (S i)
  apart : ∀ i j, i ≠ j → ((lists i).nodes (S i)).Disjoint ((lists j).nodes (S j))

/-- A node is in no list. -/
def Free (lists : ι → KernelList α) (S : ι → List α) (x : α) : Prop := ∀ i, x ∉ (lists i).nodes (S i)

/-! ## What the calls do to sequences -/

variable [DecidableEq ι]

/-- `less` cannot tell two elements apart. -/
def alike (less : α → α → Bool) (a b : α) : Bool := !less a b && !less b a

/-- The elements that are like the last one that stays. -/
def dropped (less : α → α → Bool) : α → List α → List α
  | _, [] => []
  | elem, next :: l =>
    if alike less elem next then next :: dropped less elem l else dropped less next l

/-- What stays of a list without adjacent elements that are alike. -/
def kept (less : α → α → Bool) (l : List α) : List α := l.destutter fun a b => alike less a b = false

/-- The elements that do not stay. -/
def duplicatesOf (less : α → α → Bool) : List α → List α
  | [] => []
  | elem :: l => dropped less elem l

/-- Elements are appended to a list, if one is given. -/
def appendTo (S : ι → List α) : Option ι → List α → ι → List α
  | none, _ => S
  | some d, xs => update S d (S d ++ xs)

/-- The calls. -/
inductive Call (ι α : Type)
  | insert (before elem : α)
  | splice (before first last : α)
  | remove (elem : α)
  | reverse (list : ι)
  | unique (list : ι) (duplicates : Option ι)

/-- What a call does to sequences, where it applies, and the lists that it is about. -/
inductive Applies (lists : ι → KernelList α) (less : α → α → Bool) (S : ι → List α) :
    Call ι α → List ι → (ι → List α) → Prop
  | insert {i : ι} {l₁ l₂ : List α} {elem : α} (hS : S i = l₁ ++ l₂) (hfree : Free lists S elem) :
      Applies lists less S (.insert ((lists i).start l₂) elem) [i]
        (update S i (l₁ ++ elem :: l₂))
  /-- The range is removed, and in what is left it goes before `before`. -/
  | splice {i j : ι} {l₁ r l₂ m₁ m₂ : List α} (hS : S i = l₁ ++ (r ++ l₂))
      (hbefore : update S i (l₁ ++ l₂) j = m₁ ++ m₂) :
      Applies lists less S
        (.splice ((lists j).start m₂) ((lists i).start (r ++ l₂)) ((lists i).start l₂)) [i, j]
        (update (update S i (l₁ ++ l₂)) j (m₁ ++ (r ++ m₂)))
  | remove {i : ι} {l₁ l₂ : List α} {elem : α} (hS : S i = l₁ ++ elem :: l₂) :
      Applies lists less S (.remove elem) [i] (update S i (l₁ ++ l₂))
  | reverse (i : ι) :
      Applies lists less S (.reverse i) [i] (update S i (S i).reverse)
  | unique {i : ι} {duplicates : Option ι} (hne : duplicates ≠ some i) :
      Applies lists less S (.unique i duplicates) (i :: duplicates.toList)
        (appendTo (update S i (kept less (S i))) duplicates (duplicatesOf less (S i)))

def Call.run [DecidableEq α] (lists : ι → KernelList α) (less : α → α → Bool) (turns : ℕ) :
    Call ι α → ListM α Unit
  | .insert before elem => listInsert before elem
  | .splice before first last => listSplice before first last
  | .remove elem => do
    let _ ← listRemove elem
  | .reverse i => listReverse turns (lists i)
  | .unique i duplicates => listUnique less turns (lists i) (duplicates.map lists)

/-! ## Cut and paste -/

section

open Links

variable {h h' : Links α} {lists : ι → KernelList α} {S : ι → List α} {i j : ι}
  {l₁ l₂ r xs : List α} {x : α}

lemma stop_mem_nodes (list : KernelList α) (l₁ l₂ : List α) :
    list.stop l₁ ∈ list.nodes (l₁ ++ l₂) := by
  rw [nodes_append]
  exact mem_append_left _ (mem_of_mem_getLast? stop_mem)

lemma start_mem_nodes (list : KernelList α) (l₁ l₂ : List α) :
    list.start l₂ ∈ list.nodes (l₁ ++ l₂) := by
  rw [nodes_append]
  exact mem_append_right _ (mem_of_mem_head? start_mem)

omit [DecidableEq ι] in
lemma Family.ne_of_mem (hf : Family h lists S) (hj : j ≠ i) (hx : x ∈ (lists j).nodes (S j)) {y : α}
    (hy : y ∈ (lists i).nodes (S i)) : x ≠ y := by
  rintro rfl
  exact hf.apart i j hj.symm hy hx

lemma untouched_update (hframe : ∀ j ≠ i, ∀ x ∈ (lists j).nodes (S j), h.SameAt h' x) :
    ∀ j ∉ [i], update S i xs j = S j ∧ ∀ x ∈ (lists j).nodes (S j), h.SameAt h' x := by
  intro j hj
  have hne : j ≠ i := ne_of_not_mem_cons hj
  exact ⟨update_of_ne hne .., hframe j hne⟩

lemma Family.change (hf : Family h lists S) (hw : WellFormed h' (lists i) xs)
    (hnodes : ∀ x ∈ xs, x ∈ S i ∨ Free lists S x)
    (hframe : ∀ j ≠ i, ∀ x ∈ (lists j).nodes (S j), h.SameAt h' x) :
    Family h' lists (update S i xs) := by
  -- what is in the new list is in no other one
  have hnew {j : ι} (hj : j ≠ i) : ((lists i).nodes xs).Disjoint ((lists j).nodes (S j)) := by
    intro x hx hxj
    have hold : x ∈ (lists i).nodes (S i) ∨ Free lists S x := by
      obtain hx | hx | hx := mem_nodes.mp hx
      · exact .inl (mem_nodes.mpr (.inl hx))
      · exact (hnodes x hx).imp_left fun hmem => mem_nodes.mpr (.inr (.inl hmem))
      · exact .inl (mem_nodes.mpr (.inr (.inr hx)))
    obtain hmem | hfree := hold
    · exact hf.apart i j hj.symm hmem hxj
    · exact hfree j hxj
  constructor
  · intro j
    by_cases hj : j = i
    · subst hj
      rwa [update_self]
    · rw [update_of_ne hj]
      exact (hf.wellFormed j).congr (hframe j hj)
  · intro j k hjk
    by_cases hj : j = i
    · subst hj
      rw [update_self, update_of_ne hjk.symm]
      exact hnew hjk.symm
    · by_cases hk : k = i
      · subst hk
        rw [update_self, update_of_ne hj]
        exact (hnew hj).symm
      · rw [update_of_ne hj, update_of_ne hk]
        exact hf.apart j k hjk

variable {duplicates : Option ι}

lemma appendTo_of_ne (hne : duplicates ≠ some i) : appendTo S duplicates xs i = S i := by
  cases duplicates with
  | none => rfl
  | some d => exact update_of_ne (fun heq => hne (congrArg some heq.symm)) ..

lemma appendTo_nil (S : ι → List α) (duplicates : Option ι) : appendTo S duplicates [] = S := by
  cases duplicates with
  | none => rfl
  | some d => exact update_eq_self_iff.mpr (append_nil _)

lemma appendTo_appendTo (hne : duplicates ≠ some i) (ys zs : List α) :
    appendTo (update (appendTo (update S i xs) duplicates ys) i zs) duplicates l₂ =
      appendTo (update S i zs) duplicates (ys ++ l₂) := by
  cases duplicates with
  | none => exact update_idem ..
  | some d =>
    funext k
    simp only [appendTo, update_apply]
    grind

variable [DecidableEq α]

section

variable (hf : Family h lists S)

include hf

/-- A range is cut out, and is free. -/
lemma Family.cut (hS : S i = l₁ ++ (r ++ l₂)) :
    Family (h.join ((lists i).stop l₁) ((lists i).start l₂)) lists (update S i (l₁ ++ l₂)) ∧
      (h.join ((lists i).stop l₁) ((lists i).start l₂)).Chained r ∧
      (∀ x ∈ r, Free lists (update S i (l₁ ++ l₂)) x) ∧
      ∀ j ≠ i, ∀ x ∈ (lists j).nodes (S j),
        h.SameAt (h.join ((lists i).stop l₁) ((lists i).start l₂)) x := by
  have hw := hf.wellFormed i
  rw [hS] at hw
  obtain ⟨hcut, hpiece⟩ := hw.cut
  obtain ⟨hleft, hright, -⟩ := hw.disjoint
  have hframe : ∀ j ≠ i, ∀ x ∈ (lists j).nodes (S j),
      h.SameAt (h.join ((lists i).stop l₁) ((lists i).start l₂)) x := by
    intro j hj x hx
    refine sameAt_join (hf.ne_of_mem hj hx ?_) (hf.ne_of_mem hj hx ?_)
    · rw [hS]
      exact stop_mem_nodes ..
    · rw [hS, ← append_assoc]
      exact start_mem_nodes ..
  refine ⟨hf.change hcut (fun x hx => .inl ?_) hframe, hpiece, fun x hx j => ?_, hframe⟩
  · rw [hS, mem_append, mem_append]
    exact (mem_append.mp hx).imp_right .inr
  · by_cases hj : j = i
    · subst hj
      rw [update_self, nodes_append, mem_append, not_or]
      exact ⟨fun hmem => hleft hmem hx, hright hx⟩
    · rw [update_of_ne hj]
      refine hf.apart i j (Ne.symm hj) ?_
      rw [hS, mem_nodes]
      exact .inr (.inl (mem_append_right l₁ (mem_append_left l₂ hx)))

lemma Family.paste (hS : S i = l₁ ++ l₂) (hr : h.Chained r) (hnodup : r.Nodup)
    (hfree : ∀ x ∈ r, Free lists S x) {first last : α} (hfirst : first ∈ r.head?)
    (hlast : last ∈ r.getLast?) :
    Family ((h.join last ((lists i).start l₂)).join ((lists i).stop l₁) first) lists
        (update S i (l₁ ++ (r ++ l₂))) ∧
      ∀ j ≠ i, ∀ x ∈ (lists j).nodes (S j),
        h.SameAt ((h.join last ((lists i).start l₂)).join ((lists i).stop l₁) first) x := by
  have hw := hf.wellFormed i
  rw [hS] at hw
  have hnodup' : ((lists i).nodes (l₁ ++ (r ++ l₂))).Nodup := by
    have hdisjoint : r.Disjoint ((lists i).nodes (l₁ ++ l₂)) := fun x hx hmem =>
      hfree x hx i (hS ▸ hmem)
    have hall := hnodup.append hw.nodup hdisjoint
    rw [nodes_append] at hall
    rw [nodes_append, append_assoc]
    exact (perm_append_comm_assoc ..).nodup_iff.mpr hall
  have hframe : ∀ j ≠ i, ∀ x ∈ (lists j).nodes (S j),
      h.SameAt ((h.join last ((lists i).start l₂)).join ((lists i).stop l₁) first) x := by
    intro j hj x hx
    have hout {y : α} (hy : y ∈ (lists i).nodes (l₁ ++ l₂)) : x ≠ y :=
      hf.ne_of_mem hj hx (hS ▸ hy)
    have hout' {y : α} (hy : y ∈ r) : x ≠ y := by
      rintro rfl
      exact hfree x hy j hx
    exact (sameAt_join (hout' (mem_of_mem_getLast? hlast)) (hout (start_mem_nodes ..))).trans
      (sameAt_join (hout (stop_mem_nodes ..)) (hout' (mem_of_mem_head? hfirst)))
  refine ⟨hf.change (hw.paste hr hnodup' hfirst hlast) (fun x hx => ?_) hframe, hframe⟩
  rw [hS, mem_append]
  obtain hx | hx := mem_append.mp hx
  · exact .inl (.inl hx)
  · obtain hx | hx := mem_append.mp hx
    · exact .inr (hfree x hx)
    · exact .inl (.inr hx)

/-! ## The calls -/

lemma Family.does_listInsert {elem : α} (hS : S i = l₁ ++ l₂) (hfree : Free lists S elem) :
    Does (listInsert ((lists i).start l₂) elem) h fun _ h' =>
      Family h' lists (update S i (l₁ ++ elem :: l₂)) ∧
        ∀ j ≠ i, ∀ x ∈ (lists j).nodes (S j), h.SameAt h' x := by
  have hw := hf.wellFormed i
  rw [hS] at hw
  refine (hw.does_listInsert fun heq => hfree i ?_).mpr ?_
  · rw [hS, ← heq]
    exact start_mem_nodes ..
  · refine hf.paste hS (chained_singleton h elem) (nodup_singleton elem) ?_ rfl
      rfl
    exact fun x hx => (mem_singleton.mp hx) ▸ hfree

lemma Family.does_listRemove {elem : α} (hS : S i = l₁ ++ elem :: l₂) :
    Does (listRemove elem) h fun next h' => next = (lists i).start l₂ ∧
      Family h' lists (update S i (l₁ ++ l₂)) ∧
        Free lists (update S i (l₁ ++ l₂)) elem ∧
        ∀ j ≠ i, ∀ x ∈ (lists j).nodes (S j), h.SameAt h' x := by
  have hw := hf.wellFormed i
  rw [hS] at hw
  obtain ⟨hcut, -, hfree, hframe⟩ := hf.cut (r := [elem]) hS
  exact hw.does_listRemove.mpr ⟨rfl, hcut, hfree elem mem_cons_self, hframe⟩

lemma Family.does_listSplice {m₁ m₂ : List α} (hS : S i = l₁ ++ (r ++ l₂))
    (hbefore : update S i (l₁ ++ l₂) j = m₁ ++ m₂) :
    Does (listSplice ((lists j).start m₂) ((lists i).start (r ++ l₂)) ((lists i).start l₂)) h
      fun _ h' =>
        Family h' lists (update (update S i (l₁ ++ l₂)) j (m₁ ++ (r ++ m₂))) ∧
        ∀ k, k ≠ i → k ≠ j → ∀ x ∈ (lists k).nodes (S k), h.SameAt h' x := by
  have hw := hf.wellFormed i
  rw [hS] at hw
  obtain ⟨hcut, hpiece, hfree, hframe⟩ := hf.cut hS
  have hwj := hcut.wellFormed j
  rw [hbefore] at hwj
  have hnot : (lists j).start m₂ ∉ r := fun hmem => hfree _ hmem j (hbefore ▸ start_mem_nodes ..)
  have hsub : ∀ x ∈ m₁ ++ m₂, x ∈ S j := by
    rw [← hbefore]
    by_cases hj : j = i
    · subst hj
      rw [update_self, hS]
      exact fun x => (((sublist_append_right r l₂).append_left l₁).subset ·)
    · rw [update_of_ne hj]
      exact fun x => id
  have hprev : (h.prev ((lists j).start m₂)).isSome :=
    (hf.wellFormed j).prev_isSome (start_mem_or.imp_left fun hmem =>
      hsub _ (mem_append_right m₁ hmem))
  by_cases hr : r = []
  · subst hr
    have hsame : update S i (l₁ ++ l₂) = S := update_eq_self_iff.mpr hS.symm
    rw [hsame] at hbefore ⊢
    rw [nil_append, update_eq_self_iff.mpr hbefore.symm]
    simp only [listSplice, does_bind, does_get, does_require, isInterior_or_isTail, if_true]
    exact ⟨hprev, (does_pure ()).mpr ⟨hf, fun k _ _ x _ => Links.SameAt.refl h x⟩⟩
  · refine (hw.does_listSplice hr hprev hwj.joined.2 hnot).mpr ?_
    have hnodup : r.Nodup := by
      refine hw.nodup.sublist ?_
      rw [nodes_append, append_assoc]
      exact (sublist_append_left r _).trans (sublist_append_right _ _)
    obtain ⟨hpaste, hframe'⟩ := hcut.paste hbefore hpiece hnodup hfree
      (start_append_mem (lists i) l₂ hr) (stop_append_mem (lists i) l₁ hr)
    refine ⟨hpaste, fun k hki hkj x hx => (hframe k hki x hx).trans (hframe' k hkj x ?_)⟩
    rwa [update_of_ne hki]

end

variable {turns : ℕ}

lemma Family.does_listReverse (hf : Family h lists S) (i : ι) (hturns : (S i).length < turns) :
    Does (listReverse turns (lists i)) h fun _ h' =>
      Family h' lists (update S i (S i).reverse) ∧
        ∀ j ≠ i, ∀ x ∈ (lists j).nodes (S j), h.SameAt h' x := by
  have hw := hf.wellFormed i
  by_cases hS : S i = []
  · have hsame : update S i (S i).reverse = S :=
      update_eq_self_iff.mpr (by rw [hS, reverse_nil])
    rw [hsame, listReverse, does_bind, hw.does_listEmpty, hS]
    exact (does_pure ()).mpr ⟨hf, fun j _ x _ => Links.SameAt.refl h x⟩
  · have hframe : ∀ j ≠ i, ∀ x ∈ (lists j).nodes (S j), h.SameAt (((h.flip (S i)).join (lists i).head
        ((lists i).stop (S i))).join ((lists i).start (S i)) (lists i).tail) x := by
      intro j hj x hx
      have hout {y : α} (hy : y ∈ (lists i).nodes (S i)) : x ≠ y := hf.ne_of_mem hj hx hy
      have hstop : (lists i).stop (S i) ∈ (lists i).nodes (S i ++ []) := stop_mem_nodes ..
      rw [append_nil] at hstop
      have hflip : x ∉ S i := fun hmem => hout (mem_nodes.mpr (.inr (.inl hmem))) rfl
      have hhead : x ≠ (lists i).head := hout (mem_nodes.mpr (.inl rfl))
      have htail : x ≠ (lists i).tail := hout (mem_nodes.mpr (.inr (.inr rfl)))
      have hstart : x ≠ (lists i).start (S i) := hout (start_mem_nodes _ [] _)
      exact ((sameAt_flip hflip).trans (sameAt_join hhead (hout hstop))).trans
        (sameAt_join hstart htail)
    refine (hw.does_listReverse hS hturns).mpr ⟨?_, hframe⟩
    exact hf.change (hw.flip hS) (fun x hx => .inl (mem_reverse.mp hx)) hframe

/-! ## Adjacent elements that are alike -/

lemma Family.does_pushDuplicate {next : α} (hf : Family h lists S) (hfree : Free lists S next)
    (duplicates : Option ι) :
    Does (pushDuplicate (duplicates.map lists) next) h fun _ h' =>
      Family h' lists (appendTo S duplicates [next]) ∧
        ∀ j, duplicates ≠ some j → ∀ x ∈ (lists j).nodes (S j), h.SameAt h' x := by
  cases duplicates with
  | none => exact (does_pure ()).mpr ⟨hf, fun j _ x _ => Links.SameAt.refl h x⟩
  | some d =>
    have hS : S d = S d ++ [] := (append_nil _).symm
    refine (hf.does_listInsert hS hfree).mono ?_
    rintro - h' ⟨hf', hframe⟩
    exact ⟨hf', fun j hj => hframe j fun heq => hj (congrArg some heq.symm)⟩

variable {less : α → α → Bool}

lemma Family.does_uniqueLoop {elem : α} (hf : Family h lists S) (hne : duplicates ≠ some i)
    (hS : S i = l₁ ++ elem :: l₂) (hturns : l₂.length < turns) :
    Does (uniqueLoop less (lists i) (duplicates.map lists) turns elem) h fun _ h' =>
      Family h' lists (appendTo (update S i
        (l₁ ++ l₂.destutter' (fun a b => alike less a b = false) elem)) duplicates
        (dropped less elem l₂)) ∧
      ∀ j ≠ i, duplicates ≠ some j → ∀ x ∈ (lists j).nodes (S j), h.SameAt h' x := by
  induction l₂ generalizing h S l₁ elem turns with
  | nil =>
    obtain ⟨turns, rfl⟩ := succ_of_lt hturns
    have hw := hf.wellFormed i
    rw [hS] at hw
    rw [uniqueLoop, does_bind, does_listNext hw.links.2, start_nil, if_pos rfl, destutter'_nil,
      ← hS, update_eq_self, dropped, appendTo_nil]
    exact (does_pure ()).mpr ⟨hf, fun j _ _ x _ => Links.SameAt.refl h x⟩
  | cons next l₂ ih =>
    obtain ⟨turns, rfl⟩ := succ_of_lt hturns
    have hw := hf.wellFormed i
    rw [hS] at hw
    have hS' : S i = (l₁ ++ [elem]) ++ next :: l₂ := by
      rw [hS, append_assoc]
      rfl
    have hw' := hf.wellFormed i
    rw [hS'] at hw'
    rw [uniqueLoop, does_bind, does_listNext hw.links.2, start_cons, if_neg hw'.start_ne_tail,
      ← alike]
    by_cases hsame : alike less elem next = true
    · rw [if_pos hsame, destutter'_cons_neg _ (by rw [hsame]; exact Bool.noConfusion), dropped,
        if_pos hsame, does_bind]
      refine (hf.does_listRemove hS').mono ?_
      rintro - h₁ ⟨-, hf₁, hfree, hframe₁⟩
      rw [does_bind]
      refine (hf₁.does_pushDuplicate hfree duplicates).mono ?_
      rintro - h₂ ⟨hf₂, hframe₂⟩
      have hrest : appendTo (update S i (l₁ ++ [elem] ++ l₂)) duplicates [next] i =
          l₁ ++ elem :: l₂ := by
        rw [appendTo_of_ne hne, update_self, append_assoc]
        rfl
      refine (ih hf₂ hrest (Nat.lt_of_succ_lt_succ hturns)).mono ?_
      rintro - h' ⟨hf', hframe'⟩
      rw [appendTo_appendTo hne] at hf'
      refine ⟨hf', fun j hj hdup x hx => ?_⟩
      have hkept : appendTo (update S i (l₁ ++ [elem] ++ l₂)) duplicates [next] j = S j := by
        rw [appendTo_of_ne hdup, update_of_ne hj]
      refine ((hframe₁ j hj x hx).trans (hframe₂ j hdup x ?_)).trans (hframe' j hj hdup x ?_)
      · rwa [update_of_ne hj]
      · rwa [hkept]
    · have hdiffer : alike less elem next = false := (Bool.not_eq_true _).mp hsame
      rw [if_neg hsame, destutter'_cons_pos (R := fun a b => alike less a b = false) _ hdiffer,
        dropped, if_neg hsame]
      refine (ih hf hS' (Nat.lt_of_succ_lt_succ hturns)).mono ?_
      rw [append_assoc]
      exact fun _ _ => id

lemma Family.does_listUnique (hf : Family h lists S) (hne : duplicates ≠ some i)
    (hturns : (S i).length ≤ turns) :
    Does (listUnique less turns (lists i) (duplicates.map lists)) h fun _ h' =>
      Family h' lists (appendTo (update S i (kept less (S i))) duplicates
        (duplicatesOf less (S i))) ∧
      ∀ j ≠ i, duplicates ≠ some j → ∀ x ∈ (lists j).nodes (S j), h.SameAt h' x := by
  have hw := hf.wellFormed i
  rw [listUnique, does_bind, hw.does_listEmpty]
  cases hS : S i with
  | nil =>
    have hsame : update S i (kept less []) = S := update_eq_self_iff.mpr hS.symm
    rw [hsame, duplicatesOf, appendTo_nil]
    exact (does_pure ()).mpr ⟨hf, fun j _ _ x _ => Links.SameAt.refl h x⟩
  | cons elem l =>
    rw [hS] at hturns
    rw [isEmpty_cons, if_neg Bool.false_ne_true, does_bind, hw.does_listBegin, hS]
    exact hf.does_uniqueLoop hne (hS.trans (nil_append _).symm) hturns

/-- **Linked lists refine sequences.** Where a call applies, its lists have the elements it
prescribes, forwards and backwards, and the others are unchanged. -/
theorem lists_refine {less : α → α → Bool} {c : Call ι α} {touched : List ι} {S' : ι → List α}
    (hf : Family h lists S) (hc : Applies lists less S c touched S') :
    ∃ enough, ∀ turns ≥ enough, Does (c.run lists less turns) h fun _ h' =>
      Family h' lists S' ∧
      (∀ i, ∀ turns > (S' i).length,
        (Does (forwards turns (lists i)) h' fun xs h'' => xs = S' i ∧ h'' = h') ∧
          Does (backwards turns (lists i)) h' fun xs h'' => xs = (S' i).reverse ∧ h'' = h') ∧
      ∀ j ∉ touched, S' j = S j ∧ ∀ x ∈ (lists j).nodes (S j), h.SameAt h' x := by
  -- traversals come with well-formedness
  suffices hmain : ∃ enough, ∀ turns ≥ enough, Does (c.run lists less turns) h fun _ h' =>
      Family h' lists S' ∧ ∀ j ∉ touched, S' j = S j ∧ ∀ x ∈ (lists j).nodes (S j), h.SameAt h' x by
    obtain ⟨enough, hmain⟩ := hmain
    refine ⟨enough, fun turns hturns => (hmain turns hturns).mono ?_⟩
    rintro - h' ⟨hf', hframe⟩
    exact ⟨hf', fun i turns hlong => (hf'.wellFormed i).does_traverse hlong, hframe⟩
  cases hc with
  | @insert i l₁ l₂ elem hS hfree =>
    refine ⟨0, fun turns _ => (hf.does_listInsert hS hfree).mono ?_⟩
    rintro - h' ⟨hf', hframe⟩
    exact ⟨hf', untouched_update hframe⟩
  | @splice i j l₁ r l₂ m₁ m₂ hS hbefore =>
    refine ⟨0, fun turns _ => (hf.does_listSplice hS hbefore).mono ?_⟩
    rintro - h' ⟨hf', hframe⟩
    refine ⟨hf', fun k hk => ?_⟩
    have hi : k ≠ i := ne_of_not_mem_cons hk
    have hj : k ≠ j := ne_of_not_mem_cons (not_mem_of_not_mem_cons hk)
    exact ⟨by rw [update_of_ne hj, update_of_ne hi], hframe k hi hj⟩
  | @remove i l₁ l₂ elem hS =>
    refine ⟨0, fun turns _ => does_bind.mpr ((hf.does_listRemove hS).mono ?_)⟩
    rintro - h' ⟨-, hf', -, hframe⟩
    exact (does_pure ()).mpr ⟨hf', untouched_update hframe⟩
  | reverse i =>
    refine ⟨(S i).length + 1, fun turns hturns => (hf.does_listReverse i hturns).mono ?_⟩
    rintro - h' ⟨hf', hframe⟩
    exact ⟨hf', untouched_update hframe⟩
  | @unique i duplicates hne =>
    refine ⟨(S i).length, fun turns hturns => (hf.does_listUnique hne hturns).mono ?_⟩
    rintro - h' ⟨hf', hframe⟩
    refine ⟨hf', fun j hj => ?_⟩
    have hi : j ≠ i := ne_of_not_mem_cons hj
    have hdup : duplicates ≠ some j := by
      rintro rfl
      exact hj (mem_cons_of_mem i mem_cons_self)
    exact ⟨by rw [appendTo_of_ne hdup, update_of_ne hi], hframe j hi hdup⟩

end

/-- The links of two lists, `0 4 5 1` and `2 6 3`. -/
def sampleLinks : Links ℕ where
  prev x := [none, some 5, none, some 6, some 0, some 4, some 2].getD x none
  next x := [some 4, none, some 6, none, some 5, some 1, some 3].getD x none

/-- The two lists, and their elements. -/
def sampleLists (i : Bool) : KernelList ℕ × List ℕ := if i then (⟨0, 1⟩, [4, 5]) else (⟨2, 3⟩, [6])

lemma family_sample :
    Family sampleLinks (fun i => (sampleLists i).1) fun i => (sampleLists i).2 := by
  refine ⟨fun i => ⟨?_, ?_, ?_, ?_⟩, ?_⟩
  · unfold Links.Chained
    cases i <;> decide
  · cases i <;> decide
  · cases i <;> decide
  · cases i <;> decide
  · intro i j hij
    rw [disjoint_left]
    revert i j
    decide

/-- The last element of one list goes before the first of the other. -/
theorem lists_refine_splice :
    ∃ enough, ∀ turns ≥ enough,
      Does ((Call.splice 6 5 1 : Call Bool ℕ).run (fun i => (sampleLists i).1) Nat.blt turns) sampleLinks
        fun _ h' => Family h' (fun i => (sampleLists i).1)
          (update (update (fun i => (sampleLists i).2) true [4]) false [5, 6]) := by
  have happlies : Applies (fun i => (sampleLists i).1) Nat.blt (fun i => (sampleLists i).2)
      (.splice 6 5 1) [true, false]
      (update (update (fun i => (sampleLists i).2) true [4]) false [5, 6]) :=
    @Applies.splice Bool ℕ _ _ _ _ true false [4] [5] [] [] [6] rfl rfl
  obtain ⟨enough, hall⟩ := lists_refine family_sample happlies
  exact ⟨enough, fun turns hturns => (hall turns hturns).mono fun _ _ h => h.1⟩

end Pintos.KernelList
