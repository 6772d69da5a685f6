import Mathlib

/-!
# Lists whose pointers are in their elements

A ring is closed by a head that is no element; every node knows the next node and the one before
it (`Links`), so that an element can be taken out without its list being known.  A chain hangs from
a bucket, ends in a null pointer, and every element knows where the pointer to it is kept
(`Chains`).

`none` is what stands in a node that is in no list, and must not be followed: an operation or a
walk that follows it is `none` as well.  `Links.Holds` and `Chains.Holds` say that a memory has
these lists and that no two of them share a node.  The rules of the operations lead from one such
memory to the next, and the rules of the walks say what the body of the loop has to keep.
-/

namespace Cowfs

/-! ## Rings -/

structure Links (α : Type*) where
  next : α → Option α
  prev : α → Option α

namespace Links

section

variable {α σ : Type*} [DecidableEq α] {s s' : Links α}

/-- The head of an empty ring. -/
def initHead (s : Links α) (h : α) : Links α where
  next := Function.update s.next h (some h)
  prev := Function.update s.prev h (some h)

/-- `x` between the neighbours `p` and `n`. -/
def insert (s : Links α) (x p n : α) : Links α where
  next := Function.update (Function.update s.next x (some n)) p (some x)
  prev := Function.update (Function.update s.prev n (some x)) x (some p)

/-- `x` behind the head. -/
def add (s : Links α) (x h : α) : Option (Links α) := (s.next h).map fun n => s.insert x h n

/-- Take `x` out of its ring. -/
def del (s : Links α) (x : α) : Option (Links α) :=
  match s.prev x, s.next x with
  | some p, some n => some {
      next := Function.update (Function.update s.next p (some n)) x none
      prev := Function.update (Function.update s.prev n (some p)) x none }
  | _, _ => none

/-- The nodes between `a` and `b`, in order. -/
def Segment (s : Links α) : α → List α → α → Prop
  | a, [], b => s.next a = some b ∧ s.prev b = some a
  | a, x :: xs, b => s.next a = some x ∧ s.prev x = some a ∧ s.Segment x xs b

structure Ring (s : Links α) (h : α) (xs : List α) : Prop where
  nodup : (h :: xs).Nodup
  segment : s.Segment h xs h

omit [DecidableEq α] in
lemma segment_append {a b x : α} {xs ys : List α} :
    s.Segment a (xs ++ x :: ys) b ↔ s.Segment a xs x ∧ s.Segment x ys b := by
  induction xs generalizing a with
  | nil => simp only [List.nil_append, Segment, and_assoc]
  | cons y xs ih => simp only [List.cons_append, Segment, ih, and_assoc]

omit [DecidableEq α] in
lemma Segment.next_first {a b : α} {xs : List α} (h : s.Segment a xs b) :
    s.next a = some (xs.headD b) := by
  cases xs with
  | nil => exact h.1
  | cons x xs => exact h.1

omit [DecidableEq α] in
lemma Segment.prev_last {a b : α} {xs : List α} (h : s.Segment a xs b) :
    ∃ p ∈ a :: xs, s.prev b = some p := by
  induction xs generalizing a with
  | nil => exact ⟨a, List.mem_singleton_self a, h.2⟩
  | cons x xs ih =>
    obtain ⟨p, hp, hprev⟩ := ih h.2.2
    exact ⟨p, List.mem_cons_of_mem a hp, hprev⟩

omit [DecidableEq α] in
/-- Nodes that keep their pointers. -/
lemma Segment.frame {a b : α} {xs : List α} (h : s.Segment a xs b)
    (hnext : ∀ x ∈ a :: xs, s'.next x = s.next x) (hprev : ∀ x ∈ xs, s'.prev x = s.prev x)
    (hend : s'.prev b = s.prev b) : s'.Segment a xs b := by
  induction xs generalizing a with
  | nil => exact ⟨(hnext a List.mem_cons_self).trans h.1, hend.trans h.2⟩
  | cons x xs ih =>
    refine ⟨(hnext a List.mem_cons_self).trans h.1, (hprev x List.mem_cons_self).trans h.2.1, ?_⟩
    exact ih h.2.2 (fun y hy => hnext y (List.mem_cons_of_mem a hy))
      fun y hy => hprev y (List.mem_cons_of_mem x hy)

omit [DecidableEq α] in
/-- The last node `p` of a segment is linked to another end. -/
lemma Segment.redirect {a b n p : α} {xs : List α} (h : s.Segment a xs b)
    (hnodup : (a :: xs).Nodup) (hp : s.prev b = some p) (hnext : s'.next p = some n)
    (hprev : s'.prev n = some p) (hnexts : ∀ x ∈ a :: xs, x ≠ p → s'.next x = s.next x)
    (hprevs : ∀ x ∈ xs, s'.prev x = s.prev x) : s'.Segment a xs n := by
  induction xs generalizing a with
  | nil =>
    obtain rfl : a = p := Option.some.inj (h.2.symm.trans hp)
    exact ⟨hnext, hprev⟩
  | cons x xs ih =>
    obtain ⟨p', hmem, hp'⟩ := h.2.2.prev_last
    obtain rfl : p' = p := Option.some.inj (hp'.symm.trans hp)
    have hne : a ≠ p' := fun he => (List.nodup_cons.1 hnodup).1 (he ▸ hmem)
    refine ⟨(hnexts a List.mem_cons_self hne).trans h.1,
      (hprevs x List.mem_cons_self).trans h.2.1, ?_⟩
    exact ih h.2.2 (List.nodup_cons.1 hnodup).2
      (fun y hy => hnexts y (List.mem_cons_of_mem a hy))
      fun y hy => hprevs y (List.mem_cons_of_mem x hy)

/-! ### One ring -/

lemma ring_initHead (s : Links α) (h : α) : (s.initHead h).Ring h [] where
  nodup := List.nodup_singleton h
  segment := by simp [Segment, initHead]

omit [DecidableEq α] in
lemma Ring.next_head {h : α} {xs : List α} (hr : s.Ring h xs) : s.next h = some (xs.headD h) :=
  hr.segment.next_first

omit [DecidableEq α] in
lemma Ring.next_mem {h x : α} {xs ys : List α} (hr : s.Ring h (xs ++ x :: ys)) :
    s.next x = some (ys.headD h) :=
  (segment_append.1 hr.segment).2.next_first

omit [DecidableEq α] in
lemma Ring.prev_head {h x : α} {xs : List α} (hr : s.Ring h (xs ++ [x])) : s.prev h = some x :=
  (segment_append.1 hr.segment).2.2

/-- The other nodes keep their pointers. -/
def SameOff (s s' : Links α) (xs : List α) : Prop :=
  ∀ a ∉ xs, s'.next a = s.next a ∧ s'.prev a = s.prev a

omit [DecidableEq α] in
lemma Ring.frame {h : α} {xs zs : List α} (hr : s.Ring h xs) (hsame : s.SameOff s' zs)
    (hd : (h :: xs).Disjoint zs) : s'.Ring h xs where
  nodup := hr.nodup
  segment := by
    have hoff : ∀ x ∈ h :: xs, x ∉ zs := fun x hx hz => hd hx hz
    refine hr.segment.frame (fun x hx => (hsame x (hoff x hx)).1) (fun x hx => ?_) ?_
    · exact (hsame x (hoff x (List.mem_cons_of_mem h hx))).2
    · exact (hsame h (hoff h List.mem_cons_self)).2

lemma Ring.add {h x : α} {xs : List α} (hr : s.Ring h xs) (hx : x ∉ h :: xs) :
    ∃ s', s.add x h = some s' ∧ s'.Ring h (x :: xs) ∧ s.SameOff s' (x :: h :: xs) := by
  have hxh : x ≠ h := List.ne_of_not_mem_cons hx
  have hxs : x ∉ xs := List.not_mem_of_not_mem_cons hx
  obtain ⟨hh, hxs'⟩ := List.nodup_cons.1 hr.nodup
  have hnext := hr.next_head
  set n := xs.headD h with hn
  have hmem : n ∈ h :: xs := by
    cases xs with
    | nil => exact List.mem_cons_self
    | cons y ys => exact List.mem_cons_of_mem h List.mem_cons_self
  have hnx : n ≠ x := fun he => hx (he ▸ hmem)
  refine ⟨s.insert x h n, by rw [Links.add, hnext, Option.map_some], ⟨?_, ?_⟩, ?_⟩
  · exact List.nodup_cons.2 ⟨by simp [hxh.symm, hh], List.nodup_cons.2 ⟨hxs, hxs'⟩⟩
  · have hxn : (s.insert x h n).next x = some n := by simp [insert, hxh]
    have hprev : (s.insert x h n).prev n = some x := by simp [insert, hnx]
    refine ⟨by simp [insert], by simp [insert], ?_⟩
    cases xs with
    | nil => exact ⟨hxn, hprev⟩
    | cons y ys =>
      obtain ⟨hy, hys⟩ := List.nodup_cons.1 hxs'
      refine ⟨hxn, hprev, hr.segment.2.2.frame (fun z hz => ?_) (fun z hz => ?_) ?_⟩
      · have hzx : z ≠ x := fun he => hxs (he ▸ hz)
        have hzh : z ≠ h := fun he => hh (he ▸ hz)
        simp [insert, hzx, hzh]
      · have hzx : z ≠ x := fun he => hxs (he ▸ List.mem_cons_of_mem y hz)
        have hny : n ∉ ys := hy
        have hzn : z ≠ n := fun he => hny (he ▸ hz)
        simp [insert, hzx, hzn]
      · have hhn : h ≠ n := fun he => hh (he ▸ List.mem_cons_self)
        simp [insert, hxh.symm, hhn]
  · intro a ha
    have hax : a ≠ x := List.ne_of_not_mem_cons ha
    have hrest : a ∉ h :: xs := List.not_mem_of_not_mem_cons ha
    have hah : a ≠ h := List.ne_of_not_mem_cons hrest
    have han : a ≠ n := fun he => hrest (he ▸ hmem)
    simp [insert, hax, hah, han]

/-- An element that is taken out is in no ring. -/
lemma Ring.del {h x : α} {xs ys : List α} (hr : s.Ring h (xs ++ x :: ys)) :
    ∃ s', s.del x = some s' ∧ s'.Ring h (xs ++ ys) ∧ s.SameOff s' (h :: (xs ++ x :: ys)) := by
  obtain ⟨hbefore, hafter⟩ := segment_append.1 hr.segment
  obtain ⟨p, hp, hprev⟩ := hbefore.prev_last
  have hnext := hafter.next_first
  set n := ys.headD h with hn
  have hnodup : (h :: xs ++ x :: ys).Nodup := hr.nodup
  obtain ⟨hfront, hback, hapart⟩ := List.nodup_append.1 hnodup
  obtain ⟨hxys, hys⟩ := List.nodup_cons.1 hback
  have hpx : p ≠ x := hapart p hp x List.mem_cons_self
  have hnmem : n = h ∨ n ∈ ys := by
    cases ys with
    | nil => exact .inl rfl
    | cons y ys => exact .inr List.mem_cons_self
  have hnx : n ≠ x := by
    rcases hnmem with he | hmem
    · exact he ▸ hapart h List.mem_cons_self x List.mem_cons_self
    · exact fun he => hxys (he ▸ hmem)
  have hxsn : ∀ z ∈ xs, z ≠ n := by
    intro z hz
    rcases hnmem with he | hmem
    · exact fun hzn => (List.nodup_cons.1 hfront).1 (he ▸ hzn ▸ hz)
    · exact hapart z (List.mem_cons_of_mem h hz) n (List.mem_cons_of_mem x hmem)
  set s' : Links α :=
    { next := Function.update (Function.update s.next p (some n)) x none
      prev := Function.update (Function.update s.prev n (some p)) x none } with hs'
  have hsn : s'.next p = some n := by simp [hs', hpx]
  have hsp : s'.prev n = some p := by simp [hs', hnx]
  have hfirst : s'.Segment h xs n := by
    refine hbefore.redirect hfront hprev hsn hsp (fun z hz hzp => ?_) fun z hz => ?_
    · have hzx : z ≠ x := hapart z hz x List.mem_cons_self
      simp [hs', hzx, hzp]
    · have hzx : z ≠ x := hapart z (List.mem_cons_of_mem h hz) x List.mem_cons_self
      simp [hs', hzx, hxsn z hz]
  refine ⟨s', by rw [Links.del, hprev, hnext], ⟨?_, ?_⟩, ?_⟩
  · have hsub : (h :: xs ++ ys).Sublist (h :: xs ++ x :: ys) :=
      (List.sublist_cons_self x ys).append_left (h :: xs)
    exact hsub.nodup hnodup
  · cases ys with
    | nil => rw [List.append_nil]; exact hfirst
    | cons y ys =>
      refine segment_append.2 ⟨hfirst, hafter.2.2.frame (fun z hz => ?_) (fun z hz => ?_) ?_⟩
      · have hzx : z ≠ x := fun he => hxys (he ▸ hz)
        have hzp : z ≠ p := (hapart p hp z (List.mem_cons_of_mem x hz)).symm
        simp [hs', hzx, hzp]
      · have hzx : z ≠ x := fun he => hxys (he ▸ List.mem_cons_of_mem y hz)
        have hny : n ∉ ys := (List.nodup_cons.1 hys).1
        have hzn : z ≠ n := fun he => hny (he ▸ hz)
        simp [hs', hzx, hzn]
      · have hhx : h ≠ x := hapart h List.mem_cons_self x List.mem_cons_self
        have hhn : h ≠ n :=
          hapart h List.mem_cons_self n (List.mem_cons_of_mem x List.mem_cons_self)
        simp [hs', hhx, hhn]
  · intro a ha
    have hmem : ∀ z ∈ h :: xs ++ x :: ys, a ≠ z := fun z hz he => ha (he ▸ hz)
    have hax : a ≠ x := hmem x (List.mem_append_right _ List.mem_cons_self)
    have hap : a ≠ p := hmem p (List.mem_append_left _ hp)
    have han : a ≠ n := by
      rcases hnmem with he | hys'
      · exact he ▸ hmem h List.mem_cons_self
      · exact hmem n (List.mem_append_right _ (List.mem_cons_of_mem x hys'))
    simp [hs', hax, hap, han]

/-! ### All rings of a memory -/

/-- The memory has the rings of `f`, which gives the elements of each head, and no two of them
share a node. -/
structure Holds (s : Links α) (f : α → Option (List α)) : Prop where
  ring : ∀ h xs, f h = some xs → s.Ring h xs
  apart : ∀ h xs h' xs', f h = some xs → f h' = some xs' → h ≠ h' → (h :: xs).Disjoint (h' :: xs')

/-- `x` is neither a head nor an element. -/
def Loose (f : α → Option (List α)) (x : α) : Prop := ∀ h xs, f h = some xs → x ∉ h :: xs

variable {f : α → Option (List α)}

lemma Loose.update {x : α} (hx : Loose f x) {h : α} {xs : List α} (hxs : x ∉ h :: xs) :
    Loose (Function.update f h (some xs)) x := by
  intro h' ys hf
  by_cases he : h' = h
  · subst he
    rw [Function.update_self] at hf
    obtain rfl := Option.some.inj hf
    exact hxs
  · rw [Function.update_of_ne he] at hf
    exact hx h' ys hf

omit [DecidableEq α] in
lemma holds_none (s : Links α) : s.Holds fun _ => none where
  ring _ _ h := by cases h
  apart _ _ _ _ h := by cases h

/-- One ring changes, within the nodes `zs`, which no other ring has. -/
lemma Holds.update (hs : s.Holds f) {h : α} {xs' zs : List α} (hsame : s.SameOff s' zs)
    (hr : s'.Ring h xs') (hsub : h :: xs' ⊆ zs)
    (hothers : ∀ h' ys, f h' = some ys → h' ≠ h → (h' :: ys).Disjoint zs) :
    s'.Holds (Function.update f h (some xs')) where
  ring h' ys hf := by
    by_cases he : h' = h
    · subst he
      rw [Function.update_self] at hf
      obtain rfl := Option.some.inj hf
      exact hr
    · rw [Function.update_of_ne he] at hf
      exact (hs.ring h' ys hf).frame hsame (hothers h' ys hf he)
  apart h₁ ys₁ h₂ ys₂ hf₁ hf₂ hne := by
    by_cases he₁ : h₁ = h <;> by_cases he₂ : h₂ = h
    · exact absurd (he₁.trans he₂.symm) hne
    · subst he₁
      rw [Function.update_self] at hf₁
      rw [Function.update_of_ne he₂] at hf₂
      obtain rfl := Option.some.inj hf₁
      exact fun a ha ha' => hothers h₂ ys₂ hf₂ he₂ ha' (hsub ha)
    · subst he₂
      rw [Function.update_of_ne he₁] at hf₁
      rw [Function.update_self] at hf₂
      obtain rfl := Option.some.inj hf₂
      exact fun a ha ha' => hothers h₁ ys₁ hf₁ he₁ ha (hsub ha')
    · rw [Function.update_of_ne he₁] at hf₁
      rw [Function.update_of_ne he₂] at hf₂
      exact hs.apart h₁ ys₁ h₂ ys₂ hf₁ hf₂ hne

lemma sameOff_initHead (s : Links α) (h : α) : s.SameOff (s.initHead h) [h] := by
  intro a ha
  have hne : a ≠ h := fun he => ha (he ▸ List.mem_singleton_self a)
  simp [initHead, hne]

/-- **A new ring**, on a loose head. -/
theorem Holds.initHead (hs : s.Holds f) {h : α} (hh : Loose f h) :
    (s.initHead h).Holds (Function.update f h (some [])) := by
  refine hs.update (sameOff_initHead s h) (ring_initHead s h) (List.Subset.refl _) ?_
  intro h' ys hf _
  exact fun a ha ha' => hh h' ys hf (List.mem_singleton.1 ha' ▸ ha)

/-- The pointers of a loose node are nobody's. -/
lemma Holds.initLoose (hs : s.Holds f) {x : α} (hx : Loose f x) : (s.initHead x).Holds f where
  ring h xs hf := (hs.ring h xs hf).frame (sameOff_initHead s x) fun _ ha ha' =>
    hx h xs hf (List.mem_singleton.1 ha' ▸ ha)
  apart := hs.apart

/-- **A loose node goes in** behind a head. -/
theorem Holds.add (hs : s.Holds f) {h x : α} {xs : List α} (hf : f h = some xs) (hx : Loose f x) :
    ∃ s', s.add x h = some s' ∧ s'.Holds (Function.update f h (some (x :: xs))) := by
  obtain ⟨s', hadd, hr, hsame⟩ := (hs.ring h xs hf).add (hx h xs hf)
  refine ⟨s', hadd, hs.update hsame hr (fun a ha => ?_) ?_⟩
  · simp only [List.mem_cons] at ha ⊢
    tauto
  · intro h' ys hf' hne a ha ha'
    rcases List.mem_cons.1 ha' with rfl | hmem
    · exact hx h' ys hf' ha
    · exact hs.apart h xs h' ys hf hf' (Ne.symm hne) hmem ha

/-- **An element comes out**, and is loose. -/
theorem Holds.del (hs : s.Holds f) {h x : α} {xs ys : List α} (hf : f h = some (xs ++ x :: ys)) :
    ∃ s', s.del x = some s' ∧ s'.Holds (Function.update f h (some (xs ++ ys))) ∧
      Loose (Function.update f h (some (xs ++ ys))) x := by
  have hr := hs.ring h _ hf
  have hmem : x ∈ h :: (xs ++ x :: ys) := by simp
  obtain ⟨s', hdel, hr', hsame⟩ := hr.del
  refine ⟨s', hdel, hs.update hsame hr' (fun _ ha => ?_) ?_, fun h' zs hf' hx => ?_⟩
  · simp only [List.mem_cons, List.mem_append] at ha ⊢
    tauto
  · intro h' zs hf' hne a ha ha'
    exact hs.apart h _ h' zs hf hf' (Ne.symm hne) ha' ha
  · by_cases he : h' = h
    · subst he
      rw [Function.update_self] at hf'
      obtain rfl := Option.some.inj hf'
      have hnodup : (h' :: xs ++ x :: ys).Nodup := hr.nodup
      have hperm : (x :: (h' :: xs ++ ys)).Nodup :=
        (List.perm_middle : (h' :: xs ++ x :: ys).Perm _).nodup_iff.1 hnodup
      exact (List.nodup_cons.1 hperm).1 hx
    · rw [Function.update_of_ne he] at hf'
      exact hs.apart h _ h' zs hf hf' (Ne.symm he) hmem hx

/-- A head goes out of use. -/
lemma Holds.drop (hs : s.Holds f) (h : α) : s.Holds (Function.update f h none) := by
  have hsome : ∀ {h' xs}, Function.update f h none h' = some xs → f h' = some xs := by
    intro h' xs hf
    by_cases he : h' = h
    · subst he
      rw [Function.update_self] at hf
      cases hf
    · rwa [Function.update_of_ne he] at hf
  exact ⟨fun h' xs hf => hs.ring h' xs (hsome hf), fun h₁ xs₁ h₂ xs₂ hf₁ hf₂ =>
    hs.apart h₁ xs₁ h₂ xs₂ (hsome hf₁) (hsome hf₂)⟩

/-! ### Walks -/

/-- The loop of `forEach`, with `pos` as it stands. -/
def walk (s : Links α) (h : α) (body : α → σ → Option (σ × Bool)) : ℕ → α → σ → Option σ
  | 0, _, _ => none
  | fuel + 1, pos, acc =>
    if pos = h then some acc
    else
      (body pos acc).bind fun r =>
        if r.2 then (s.next pos).bind fun n => s.walk h body fuel n r.1 else some r.1

/-- Visit the elements behind `h` as long as the body says so. -/
def forEach (s : Links α) (h : α) (body : α → σ → Option (σ × Bool)) (fuel : ℕ) (acc : σ) :
    Option σ :=
  (s.next h).bind fun pos => s.walk h body fuel pos acc

/-- The loop of `forEachSafe`, with `pos` and the node behind it as they stand; the body may take
`pos` out. -/
def walkSafe (links : σ → Links α) (h : α) (body : α → σ → Option σ) :
    ℕ → α → α → σ → Option σ
  | 0, _, _, _ => none
  | fuel + 1, pos, n, acc =>
    if pos = h then some acc
    else
      (body pos acc).bind fun acc => ((links acc).next n).bind fun n' =>
        walkSafe links h body fuel n n' acc

/-- Visit the elements behind `h`, each of which may be taken out. -/
def forEachSafe (links : σ → Links α) (h : α) (body : α → σ → Option σ) (fuel : ℕ) (acc : σ) :
    Option σ :=
  ((links acc).next h).bind fun pos => ((links acc).next pos).bind fun n =>
    walkSafe links h body fuel pos n acc

end

end Links

section

variable {β σ : Type*}

/-- A loop over a list whose body may stop it. -/
def visit (body : β → σ → Option (σ × Bool)) : List β → σ → Option σ
  | [], acc => some acc
  | x :: xs, acc => (body x acc).bind fun r => if r.2 then visit body xs r.1 else some r.1

end

namespace Links

section

variable {α σ : Type*} [DecidableEq α] {s : Links α} {h : α} {xs : List α}

/-- **A walk** visits the elements of its ring. -/
theorem Ring.forEach (hr : s.Ring h xs) (body : α → σ → Option (σ × Bool)) {fuel : ℕ}
    (hfuel : xs.length < fuel) (acc : σ) : s.forEach h body fuel acc = visit body xs acc := by
  -- the part of the ring in front of `pos` grows
  have hwalk : ∀ (todo kept : List α) (fuel : ℕ) (acc : σ), xs = kept ++ todo →
      todo.length < fuel → s.walk h body fuel (todo.headD h) acc = visit body todo acc := by
    intro todo
    induction todo with
    | nil =>
      intro kept fuel acc _ hfuel
      obtain ⟨fuel, rfl⟩ := Nat.exists_eq_add_of_lt hfuel
      simp [walk, visit]
    | cons x todo ih =>
      intro kept fuel acc hxs hfuel
      cases fuel with
      | zero => cases hfuel
      | succ fuel =>
        have hmem : x ∈ xs := hxs ▸ List.mem_append_right kept List.mem_cons_self
        have hxh : x ≠ h := fun he => (List.nodup_cons.1 hr.nodup).1 (he ▸ hmem)
        have hnext : s.next x = some (todo.headD h) := by
          rw [hxs] at hr
          exact hr.next_mem
        have hrest : ∀ acc, s.walk h body fuel (todo.headD h) acc = visit body todo acc :=
          fun acc => ih (kept ++ [x]) fuel acc (by simpa using hxs) (Nat.lt_of_succ_lt_succ hfuel)
        simp only [List.headD_cons, walk, if_neg hxh, hnext, Option.bind_some, hrest, visit]
  rw [Links.forEach, hr.next_head, Option.bind_some]
  exact hwalk xs [] fuel acc rfl hfuel

omit [DecidableEq α] in
/-- The node behind the first one still to be visited. -/
lemma Ring.next_todo {kept todo : List α} (hr : s.Ring h (kept ++ todo)) :
    ∃ n, s.next (todo.headD h) = some n ∧ ∀ x rest, todo = x :: rest → n = rest.headD h := by
  cases todo with
  | nil => exact ⟨_, hr.next_head, fun x rest he => by cases he⟩
  | cons x todo =>
    refine ⟨_, hr.next_mem, fun y rest he => ?_⟩
    obtain ⟨rfl, rfl⟩ := List.cons.inj he
    rfl

/-- **The rule of the safe walk.**  The body keeps what is still to be visited at the end of the
ring, and `I`, which knows what has been visited. -/
theorem forEachSafe_rule {links : σ → Links α} {body : α → σ → Option σ}
    (I : List α → List α → σ → Prop)
    (hring : ∀ done todo acc, I done todo acc → ∃ kept, (links acc).Ring h (kept ++ todo))
    (hbody : ∀ done x todo acc, I done (x :: todo) acc →
      ∃ acc', body x acc = some acc' ∧ I (done ++ [x]) todo acc')
    {fuel : ℕ} (hfuel : xs.length < fuel) {acc : σ} (hr : (links acc).Ring h xs)
    (hI : I [] xs acc) :
    ∃ acc', forEachSafe links h body fuel acc = some acc' ∧ I xs [] acc' := by
  have hwalk : ∀ (todo done : List α) (fuel : ℕ) (n : α) (acc : σ), I done todo acc →
      todo.length < fuel → (∀ x rest, todo = x :: rest → n = rest.headD h) →
      ∃ acc', walkSafe links h body fuel (todo.headD h) n acc = some acc' ∧
        I (done ++ todo) [] acc' := by
    intro todo
    induction todo with
    | nil =>
      intro done fuel n acc hI hfuel _
      obtain ⟨fuel, rfl⟩ := Nat.exists_eq_add_of_lt hfuel
      exact ⟨acc, by simp [walkSafe], by rwa [List.append_nil]⟩
    | cons x todo ih =>
      intro done fuel n acc hI hfuel hn
      cases fuel with
      | zero => cases hfuel
      | succ fuel =>
        obtain ⟨kept, hr⟩ := hring _ _ _ hI
        have hxh : x ≠ h := fun he =>
          (List.nodup_cons.1 hr.nodup).1 (he ▸ List.mem_append_right kept List.mem_cons_self)
        obtain ⟨acc', hacc', hI'⟩ := hbody _ _ _ _ hI
        obtain ⟨kept', hr'⟩ := hring _ _ _ hI'
        obtain ⟨n', hn', hrest⟩ := hr'.next_todo
        obtain ⟨acc'', hacc'', hI''⟩ := ih (done ++ [x]) fuel n' acc' hI'
          (Nat.lt_of_succ_lt_succ hfuel) hrest
        refine ⟨acc'', ?_, by simpa using hI''⟩
        rw [List.headD_cons, walkSafe, if_neg hxh, hacc', Option.bind_some, hn x todo rfl, hn',
          Option.bind_some]
        exact hacc''
  have hr₀ : (links acc).Ring h ([] ++ xs) := hr
  obtain ⟨n, hn, hrest⟩ := hr₀.next_todo
  rw [forEachSafe, hr.next_head, Option.bind_some, hn, Option.bind_some]
  exact hwalk xs [] fuel n acc hI hfuel hrest

/-- What the body keeps, a safe walk that ends has kept. -/
lemma forEachSafe_keeps {links : σ → Links α} {body : α → σ → Option σ} {P : σ → Prop}
    (hbody : ∀ x acc acc', P acc → body x acc = some acc' → P acc') {fuel : ℕ} {acc acc' : σ}
    (hP : P acc) (hend : forEachSafe links h body fuel acc = some acc') : P acc' := by
  have hwalk : ∀ (fuel : ℕ) (pos n : α) (acc : σ), P acc →
      walkSafe links h body fuel pos n acc = some acc' → P acc' := by
    intro fuel
    induction fuel with
    | zero => exact fun pos n acc _ hend => by cases hend
    | succ fuel ih =>
      intro pos n acc hP hend
      rw [walkSafe] at hend
      split_ifs at hend
      · obtain rfl := Option.some.inj hend
        exact hP
      · obtain ⟨acc₁, hacc₁, hrest⟩ := Option.bind_eq_some_iff.1 hend
        obtain ⟨n', -, hwalk⟩ := Option.bind_eq_some_iff.1 hrest
        exact ih n n' acc₁ (hbody pos acc acc₁ hP hacc₁) hwalk
  obtain ⟨pos, -, hrest⟩ := Option.bind_eq_some_iff.1 hend
  obtain ⟨n, -, hend'⟩ := Option.bind_eq_some_iff.1 hrest
  exact hwalk fuel pos n acc hP hend'

end

end Links

/-! ## Chains -/

structure Chains (β ι : Type*) where
  first : β → Option ι
  /-- `some none` is the null pointer at the end. -/
  next : ι → Option (Option ι)
  /-- Where the pointer to a node is kept; `none` for a node in no chain. -/
  pprev : ι → Option (β ⊕ ι)

namespace Chains

section

variable {β ι σ : Type*} [DecidableEq β] [DecidableEq ι] {c c' : Chains β ι}

/-- Write the pointer kept at `p`. -/
def setAt (c : Chains β ι) (p : β ⊕ ι) (o : Option ι) : Chains β ι :=
  match p with
  | .inl b => { c with first := Function.update c.first b o }
  | .inr x => { c with next := Function.update c.next x (some o) }

/-- The node a pointer leads to, if any, is told where that pointer is kept. -/
def setPprev (c : Chains β ι) (o : Option ι) (p : β ⊕ ι) : Chains β ι :=
  match o with
  | none => c
  | some x => { c with pprev := Function.update c.pprev x (some p) }

/-- `x` at the front of the chain of `b`. -/
def addHead (c : Chains β ι) (x : ι) (b : β) : Chains β ι :=
  let c' := c.setPprev (c.first b) (.inr x)
  { first := Function.update c'.first b (some x)
    next := Function.update c'.next x (some (c.first b))
    pprev := Function.update c'.pprev x (some (.inl b)) }

/-- Take `x` out of its chain, if it is in one. -/
def del (c : Chains β ι) (x : ι) : Option (Chains β ι) :=
  match c.pprev x with
  | none => some c
  | some p => (c.next x).map fun n =>
    let c' := (c.setAt p n).setPprev n p
    { c' with
      next := Function.update c'.next x (some none)
      pprev := Function.update c'.pprev x none }

omit [DecidableEq β] in
@[simp] lemma setPprev_first (c : Chains β ι) (o : Option ι) (p : β ⊕ ι) :
    (c.setPprev o p).first = c.first := by cases o <;> rfl

omit [DecidableEq β] in
@[simp] lemma setPprev_next (c : Chains β ι) (o : Option ι) (p : β ⊕ ι) :
    (c.setPprev o p).next = c.next := by cases o <;> rfl

omit [DecidableEq β] in
lemma setPprev_self (c : Chains β ι) (p : β ⊕ ι) (x : ι) :
    (c.setPprev (some x) p).pprev x = some p := Function.update_self ..

omit [DecidableEq β] in
lemma setPprev_of_ne (c : Chains β ι) {o : Option ι} (p : β ⊕ ι) {x : ι} (h : o ≠ some x) :
    (c.setPprev o p).pprev x = c.pprev x := by
  cases o with
  | none => rfl
  | some y => exact Function.update_of_ne (fun he => h (congrArg some he.symm)) ..

/-- The nodes behind the pointer kept at `p`. -/
def Linked (c : Chains β ι) : β ⊕ ι → List ι → Prop
  | _, [] => True
  | p, x :: xs => c.pprev x = some p ∧ c.next x = some xs.head? ∧ c.Linked (.inr x) xs

/-- The memory has the chains of `f`, and no two of them share a node. -/
structure Holds (c : Chains β ι) (f : β → List ι) : Prop where
  nodup : ∀ b, (f b).Nodup
  apart : ∀ b b' x, x ∈ f b → x ∈ f b' → b = b'
  first : ∀ b, c.first b = (f b).head?
  linked : ∀ b, c.Linked (.inl b) (f b)

omit [DecidableEq β] [DecidableEq ι] in
lemma Linked.frame {p : β ⊕ ι} {xs : List ι} (h : c.Linked p xs)
    (hsame : ∀ x ∈ xs, c'.next x = c.next x ∧ c'.pprev x = c.pprev x) : c'.Linked p xs := by
  induction xs generalizing p with
  | nil => trivial
  | cons x xs ih =>
    obtain ⟨hnext, hprev⟩ := hsame x List.mem_cons_self
    refine ⟨hprev.trans h.1, hnext.trans h.2.1, ih h.2.2 fun y hy => ?_⟩
    exact hsame y (List.mem_cons_of_mem x hy)

omit [DecidableEq β] [DecidableEq ι] in
lemma Linked.next {p : β ⊕ ι} {done todo : List ι} {x : ι} (h : c.Linked p (done ++ x :: todo)) :
    c.next x = some todo.head? := by
  induction done generalizing p with
  | nil => exact h.2.1
  | cons y done ih => exact ih h.2.2

omit [DecidableEq β] [DecidableEq ι] in
lemma holds_nil :
    (⟨fun _ => none, fun _ => none, fun _ => none⟩ : Chains β ι).Holds fun _ => [] where
  nodup _ := List.nodup_nil
  apart _ _ _ h := absurd h List.not_mem_nil
  first _ := rfl
  linked _ := trivial

variable {f : β → List ι}

omit [DecidableEq β] [DecidableEq ι] in
lemma Holds.next (hc : c.Holds f) {b : β} {done todo : List ι} {x : ι}
    (hf : f b = done ++ x :: todo) : c.next x = some todo.head? :=
  (hf ▸ hc.linked b : c.Linked (.inl b) (done ++ x :: todo)).next

omit [DecidableEq β] [DecidableEq ι] in
/-- The chain `xs` hung behind the pointer at `p`, where its first node is told so. -/
lemma Linked.rehang {p q : β ⊕ ι} {xs : List ι} (h : c.Linked p xs) (hnodup : xs.Nodup)
    (hhead : ∀ x, xs.head? = some x → c'.pprev x = some q)
    (hnext : ∀ x ∈ xs, c'.next x = c.next x)
    (hprev : ∀ x ∈ xs, xs.head? ≠ some x → c'.pprev x = c.pprev x) : c'.Linked q xs := by
  cases xs with
  | nil => trivial
  | cons x xs =>
    refine ⟨hhead x rfl, (hnext x List.mem_cons_self).trans h.2.1, h.2.2.frame fun y hy => ?_⟩
    have hne : (x :: xs).head? ≠ some y := by
      intro he
      rw [List.head?_cons] at he
      obtain rfl := Option.some.inj he
      exact (List.nodup_cons.1 hnodup).1 hy
    exact ⟨hnext y (List.mem_cons_of_mem x hy), hprev y (List.mem_cons_of_mem x hy) hne⟩

/-- **A new node goes in** at the front. -/
theorem Holds.addHead (hc : c.Holds f) {x : ι} (hx : ∀ b, x ∉ f b) (b : β) :
    (c.addHead x b).Holds (Function.update f b (x :: f b)) := by
  have hne : ∀ {b' y}, y ∈ f b' → y ≠ x := fun hy he => hx _ (he ▸ hy)
  have hnext : ∀ y, y ≠ x → (c.addHead x b).next y = c.next y := fun y hy => by
    simp [Chains.addHead, hy]
  have hprev : ∀ y, y ≠ x → (f b).head? ≠ some y → (c.addHead x b).pprev y = c.pprev y :=
    fun y hy hhead => by
      simp only [Chains.addHead, Function.update_of_ne hy, hc.first b]
      exact c.setPprev_of_ne (.inr x) hhead
  refine ⟨fun b' => ?_, fun b₁ b₂ y h₁ h₂ => ?_, fun b' => ?_, fun b' => ?_⟩
  · by_cases hb : b' = b
    · subst hb
      rw [Function.update_self]
      exact List.nodup_cons.2 ⟨hx b', hc.nodup b'⟩
    · rw [Function.update_of_ne hb]
      exact hc.nodup b'
  · have hmem : ∀ b', y ∈ Function.update f b (x :: f b) b' → y ∈ f b' ∨ y = x ∧ b' = b := by
      intro b' h
      by_cases hb : b' = b
      · subst hb
        rw [Function.update_self] at h
        exact (List.mem_cons.1 h).elim (fun he => .inr ⟨he, rfl⟩) .inl
      · rw [Function.update_of_ne hb] at h
        exact .inl h
    rcases hmem b₁ h₁ with hy | ⟨rfl, rfl⟩
    · rcases hmem b₂ h₂ with hy' | ⟨rfl, rfl⟩
      · exact hc.apart b₁ b₂ y hy hy'
      · exact absurd hy (hx b₁)
    · rcases hmem b₂ h₂ with hy' | ⟨-, rfl⟩
      · exact absurd hy' (hx b₂)
      · rfl
  · by_cases hb : b' = b
    · subst hb
      simp [Chains.addHead]
    · simp [Chains.addHead, hb, hc.first b']
  · by_cases hb : b' = b
    · subst hb
      rw [Function.update_self]
      refine ⟨by simp [Chains.addHead], by simp [Chains.addHead, hc.first b'], ?_⟩
      refine (hc.linked b').rehang (hc.nodup b') (fun y hhead => ?_)
        (fun y hy => hnext y (hne hy)) fun y hy hhead => hprev y (hne hy) hhead
      have hy : y ∈ f b' := List.mem_of_mem_head? hhead
      simp only [Chains.addHead, Function.update_of_ne (hne hy), hc.first b', hhead]
      exact c.setPprev_self (.inr x) y
    · rw [Function.update_of_ne hb]
      refine (hc.linked b').frame fun y hy => ⟨hnext y (hne hy), hprev y (hne hy) fun hhead => ?_⟩
      exact hb (hc.apart b' b y hy (List.mem_of_mem_head? hhead))

/-- **The first node comes out.** -/
theorem Holds.del (hc : c.Holds f) {b : β} {x : ι} {xs : List ι} (hf : f b = x :: xs) :
    ∃ c', c.del x = some c' ∧ c'.Holds (Function.update f b xs) := by
  have hlinked : c.Linked (.inl b) (x :: xs) := hf ▸ hc.linked b
  have hnodup : (x :: xs).Nodup := hf ▸ hc.nodup b
  obtain ⟨hx, hxs⟩ := List.nodup_cons.1 hnodup
  have hother : ∀ {b' y}, b' ≠ b → y ∈ f b' → y ∉ x :: xs := fun {b' y} hb hy hmem =>
    hb (hc.apart b' b y hy (hf ▸ hmem))
  set c' : Chains β ι := (c.setAt (.inl b) xs.head?).setPprev xs.head? (.inl b) with hc'
  refine ⟨{ c' with
    next := Function.update c'.next x (some none)
    pprev := Function.update c'.pprev x none },
    by rw [Chains.del, hlinked.1, hlinked.2.1]; rfl, ⟨fun b' => ?_, fun b₁ b₂ y h₁ h₂ => ?_,
      fun b' => ?_, fun b' => ?_⟩⟩
  · by_cases hb : b' = b
    · subst hb
      rwa [Function.update_self]
    · rw [Function.update_of_ne hb]
      exact hc.nodup b'
  · have hmem : ∀ b', y ∈ Function.update f b xs b' → y ∈ f b' := by
      intro b' h
      by_cases hb : b' = b
      · subst hb
        rw [Function.update_self] at h
        exact hf ▸ List.mem_cons_of_mem x h
      · rwa [Function.update_of_ne hb] at h
    exact hc.apart b₁ b₂ y (hmem b₁ h₁) (hmem b₂ h₂)
  · by_cases hb : b' = b
    · subst hb
      simp [hc', setAt]
    · simp [hc', setAt, hb, hc.first b']
  · by_cases hb : b' = b
    · subst hb
      rw [Function.update_self]
      have hne : ∀ y ∈ xs, y ≠ x := fun y hy he => hx (he ▸ hy)
      refine hlinked.2.2.rehang hxs (fun y hhead => ?_) (fun y hy => ?_) fun y hy hhead => ?_
      · have hy : y ∈ xs := List.mem_of_mem_head? hhead
        simp only [Function.update_of_ne (hne y hy), hc', hhead]
        exact setPprev_self ..
      · simp [hc', setAt, hne y hy]
      · simp only [Function.update_of_ne (hne y hy), hc']
        exact setPprev_of_ne _ _ hhead
    · rw [Function.update_of_ne hb]
      refine (hc.linked b').frame fun y hy => ?_
      have hne : y ≠ x := fun he => hother hb hy (he ▸ List.mem_cons_self)
      refine ⟨by simp [hc', setAt, hne], ?_⟩
      simp only [Function.update_of_ne hne, hc']
      refine setPprev_of_ne _ _ fun hhead => ?_
      exact hother hb hy (List.mem_cons_of_mem x (List.mem_of_mem_head? hhead))

/-! ### Walks -/

/-- The first node from `o` on with the property `p`. -/
def find (c : Chains β ι) (p : ι → Option Bool) : ℕ → Option ι → Option (Option ι)
  | 0, _ => none
  | _ + 1, none => some none
  | fuel + 1, some x =>
    (p x).bind fun hit =>
      if hit then some (some x) else (c.next x).bind fun n => c.find p fuel n

/-- Visit nodes, each of which gives the next one. -/
def loop (visit : ι → σ → Option (Option ι × σ)) : ℕ → Option ι → σ → Option σ
  | 0, _, _ => none
  | _ + 1, none, acc => some acc
  | fuel + 1, some x, acc => (visit x acc).bind fun r => loop visit fuel r.1 r.2

/-- Visit the nodes from `o` on. -/
def walk (chains : σ → Chains β ι) (body : ι → σ → Option σ) : ℕ → Option ι → σ → Option σ :=
  loop fun x acc => (body x acc).bind fun acc => ((chains acc).next x).map fun n => (n, acc)

/-- Visit the nodes from `o` on, each of which may be taken out. -/
def walkSafe (chains : σ → Chains β ι) (body : ι → σ → Option σ) : ℕ → Option ι → σ → Option σ :=
  loop fun x acc => ((chains acc).next x).bind fun n => (body x acc).map fun acc => (n, acc)

omit [DecidableEq β] [DecidableEq ι] in
lemma Holds.find (hc : c.Holds f) {b : β} {p : ι → Option Bool} {q : ι → Bool}
    (hp : ∀ x ∈ f b, p x = some (q x)) {fuel : ℕ} (hfuel : (f b).length < fuel) :
    c.find p fuel (c.first b) = some ((f b).find? q) := by
  have hwalk : ∀ (todo done : List ι) (fuel : ℕ), f b = done ++ todo → todo.length < fuel →
      c.find p fuel todo.head? = some (todo.find? q) := by
    intro todo
    induction todo with
    | nil =>
      intro done fuel _ hfuel
      obtain ⟨fuel, rfl⟩ := Nat.exists_eq_add_of_lt hfuel
      simp [Chains.find]
    | cons x todo ih =>
      intro done fuel hf hfuel
      cases fuel with
      | zero => cases hfuel
      | succ fuel =>
        have hx : x ∈ f b := hf ▸ List.mem_append_right done List.mem_cons_self
        have hrest := ih (done ++ [x]) fuel (by simpa using hf) (Nat.lt_of_succ_lt_succ hfuel)
        rw [List.head?_cons, Chains.find, hp x hx, Option.bind_some, hc.next hf, Option.bind_some,
          hrest, List.find?_cons]
        cases q x <;> rfl
  rw [hc.first b]
  exact hwalk (f b) [] fuel rfl hfuel

omit [DecidableEq ι] in
lemma loop_rule {visit : ι → σ → Option (Option ι × σ)} (I : List ι → List ι → σ → Prop)
    (hvisit : ∀ done x todo acc, I done (x :: todo) acc →
      ∃ acc', visit x acc = some (todo.head?, acc') ∧ I (done ++ [x]) todo acc')
    {xs : List ι} {fuel : ℕ} (hfuel : xs.length < fuel) {acc : σ} (hI : I [] xs acc) :
    ∃ acc', loop visit fuel xs.head? acc = some acc' ∧ I xs [] acc' := by
  have hloop : ∀ (todo done : List ι) (fuel : ℕ) (acc : σ), I done todo acc →
      todo.length < fuel →
      ∃ acc', loop visit fuel todo.head? acc = some acc' ∧ I (done ++ todo) [] acc' := by
    intro todo
    induction todo with
    | nil =>
      intro done fuel acc hI hfuel
      obtain ⟨fuel, rfl⟩ := Nat.exists_eq_add_of_lt hfuel
      exact ⟨acc, by simp [loop], by rwa [List.append_nil]⟩
    | cons x todo ih =>
      intro done fuel acc hI hfuel
      cases fuel with
      | zero => cases hfuel
      | succ fuel =>
        obtain ⟨acc', hacc', hI'⟩ := hvisit _ _ _ _ hI
        obtain ⟨acc'', hacc'', hI''⟩ := ih (done ++ [x]) fuel acc' hI'
          (Nat.lt_of_succ_lt_succ hfuel)
        refine ⟨acc'', ?_, by simpa using hI''⟩
        rw [List.head?_cons, loop, hacc', Option.bind_some]
        exact hacc''
  exact hloop xs [] fuel acc hI hfuel

omit [DecidableEq β] [DecidableEq ι] in
/-- **The rule of the walk.**  The body keeps what is behind the node it is at, and `I`, which
knows what has been visited. -/
theorem walk_rule {chains : σ → Chains β ι} (body : ι → σ → Option σ)
    (I : List ι → List ι → σ → Prop)
    (hnext : ∀ done x todo acc, I (done ++ [x]) todo acc →
      (chains acc).next x = some todo.head?)
    (hbody : ∀ done x todo acc, I done (x :: todo) acc →
      ∃ acc', body x acc = some acc' ∧ I (done ++ [x]) todo acc')
    {xs : List ι} {fuel : ℕ} (hfuel : xs.length < fuel) {acc : σ} (hI : I [] xs acc) :
    ∃ acc', walk chains body fuel xs.head? acc = some acc' ∧ I xs [] acc' := by
  refine loop_rule I (fun done x todo acc hI => ?_) hfuel hI
  obtain ⟨acc', hacc', hI'⟩ := hbody _ _ _ _ hI
  exact ⟨acc', by rw [hacc', Option.bind_some, hnext _ _ _ _ hI', Option.map_some], hI'⟩

omit [DecidableEq β] [DecidableEq ι] in
/-- **The rule of the safe walk.**  Here the body may take its node out. -/
theorem walkSafe_rule {chains : σ → Chains β ι} (body : ι → σ → Option σ)
    (I : List ι → List ι → σ → Prop)
    (hnext : ∀ done x todo acc, I done (x :: todo) acc → (chains acc).next x = some todo.head?)
    (hbody : ∀ done x todo acc, I done (x :: todo) acc →
      ∃ acc', body x acc = some acc' ∧ I (done ++ [x]) todo acc')
    {xs : List ι} {fuel : ℕ} (hfuel : xs.length < fuel) {acc : σ} (hI : I [] xs acc) :
    ∃ acc', walkSafe chains body fuel xs.head? acc = some acc' ∧ I xs [] acc' := by
  refine loop_rule I (fun done x todo acc hI => ?_) hfuel hI
  obtain ⟨acc', hacc', hI'⟩ := hbody _ _ _ _ hI
  exact ⟨acc', by rw [hnext _ _ _ _ hI, Option.bind_some, hacc', Option.map_some], hI'⟩

omit [DecidableEq β] [DecidableEq ι] in
lemma loop_keeps {visit : ι → σ → Option (Option ι × σ)} {P : σ → Prop}
    (hvisit : ∀ x acc r, P acc → visit x acc = some r → P r.2) {fuel : ℕ} {o : Option ι}
    {acc acc' : σ} (hP : P acc) (hend : loop visit fuel o acc = some acc') : P acc' := by
  induction fuel generalizing o acc with
  | zero => cases hend
  | succ fuel ih =>
    cases o with
    | none =>
      obtain rfl := Option.some.inj hend
      exact hP
    | some x =>
      obtain ⟨r, hr, hrest⟩ := Option.bind_eq_some_iff.1 hend
      exact ih (hvisit x acc r hP hr) hrest

omit [DecidableEq β] [DecidableEq ι] in
/-- What the body keeps, a walk that ends has kept. -/
lemma walk_keeps {chains : σ → Chains β ι} {body : ι → σ → Option σ} {P : σ → Prop}
    (hbody : ∀ x acc acc', P acc → body x acc = some acc' → P acc') {fuel : ℕ} {o : Option ι}
    {acc acc' : σ} (hP : P acc) (hend : walk chains body fuel o acc = some acc') : P acc' := by
  refine loop_keeps (fun x acc r hP hr => ?_) hP hend
  obtain ⟨acc₁, hacc₁, hnext⟩ := Option.bind_eq_some_iff.1 hr
  obtain ⟨n, -, rfl⟩ := Option.map_eq_some_iff.1 hnext
  exact hbody x acc acc₁ hP hacc₁

omit [DecidableEq β] [DecidableEq ι] in
lemma walkSafe_keeps {chains : σ → Chains β ι} {body : ι → σ → Option σ} {P : σ → Prop}
    (hbody : ∀ x acc acc', P acc → body x acc = some acc' → P acc') {fuel : ℕ} {o : Option ι}
    {acc acc' : σ} (hP : P acc) (hend : walkSafe chains body fuel o acc = some acc') : P acc' := by
  refine loop_keeps (fun x acc r hP hr => ?_) hP hend
  obtain ⟨n, -, hbodyr⟩ := Option.bind_eq_some_iff.1 hr
  obtain ⟨acc₁, hacc₁, rfl⟩ := Option.map_eq_some_iff.1 hbodyr
  exact hbody x acc acc₁ hP hacc₁

end

end Chains

section

variable {β σ : Type*}

/-- The rule of a loop over a list that may get stuck. -/
lemma foldlM_rule {body : σ → β → Option σ} (I : List β → List β → σ → Prop)
    (hbody : ∀ done x todo acc, I done (x :: todo) acc →
      ∃ acc', body acc x = some acc' ∧ I (done ++ [x]) todo acc')
    {xs : List β} {acc : σ} (hI : I [] xs acc) :
    ∃ acc', xs.foldlM body acc = some acc' ∧ I xs [] acc' := by
  have hloop : ∀ (todo done : List β) (acc : σ), I done todo acc →
      ∃ acc', todo.foldlM body acc = some acc' ∧ I (done ++ todo) [] acc' := by
    intro todo
    induction todo with
    | nil => exact fun done acc hI => ⟨acc, rfl, by rwa [List.append_nil]⟩
    | cons x todo ih =>
      intro done acc hI
      obtain ⟨acc', hacc', hI'⟩ := hbody _ _ _ _ hI
      obtain ⟨acc'', hacc'', hI''⟩ := ih (done ++ [x]) acc' hI'
      refine ⟨acc'', ?_, by simpa using hI''⟩
      rw [List.foldlM_cons, hacc']
      exact hacc''
  exact hloop xs [] acc hI

lemma foldlM_keeps {body : σ → β → Option σ} {P : σ → Prop}
    (hbody : ∀ x acc acc', P acc → body acc x = some acc' → P acc') {xs : List β} {acc acc' : σ}
    (hP : P acc) (hend : xs.foldlM body acc = some acc') : P acc' := by
  induction xs generalizing acc with
  | nil =>
    obtain rfl := Option.some.inj hend
    exact hP
  | cons x xs ih =>
    rw [List.foldlM_cons] at hend
    obtain ⟨acc₁, hacc₁, hrest⟩ := Option.bind_eq_some_iff.1 hend
    exact ih (hbody x acc acc₁ hP hacc₁) hrest

end

end Cowfs
