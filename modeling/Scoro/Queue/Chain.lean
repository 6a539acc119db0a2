import Scoro.Queue.Model

/-!
# The chain of nodes

From `m_head` the nodes form a chain `cs` that ends at the node whose address a producer last
swung `m_tail` to. A producer between its CAS and its link store leaves a gap in the chain,
and there may be any number of gaps. `Shape` says this, and `Shape.frame` that only the
`next` fields on the chain and the producers at their link store matter for it.
-/

namespace Scoro.AtomicQueue
open Scoro.Lib

variable {P T : Type*}

namespace State

def next (s : State P T) (a : Addr) : Option Addr := (s.heap a).bind Node.next

def value (s : State P T) (a : Addr) : Option T := (s.heap a).bind Node.value

def Live (s : State P T) (a : Addr) : Prop := (s.heap a).isSome

/-- `b` comes after `a`: `a` is linked to `b`, or a producer is about to do it. -/
def Edge (s : State P T) (a b : Addr) : Prop :=
  s.next a = some b ∨ s.next a = none ∧ ∃ p, s.producers p = .link a b

end State

/-- The nodes from `m_head` to the last one in the order of the CASes on `m_tail`. -/
structure Shape (s : State P T) (cs : List Addr) : Prop where
  head : cs.head? = some s.mHead
  nodup : cs.Nodup
  live : ∀ a ∈ cs, s.Live a
  edges : cs.IsChain s.Edge
  last : ∀ a, cs.getLast? = some a → s.next a = none
  tail : s.mTail = none ∨ s.mTail = cs.getLast?
  pending : ∀ p t n, s.producers p = .link t n →
    t ∈ cs ∧ s.next t = none ∧ cs.getLast? ≠ some t
  pending_inj : ∀ p q t m n, s.producers p = .link t m → s.producers q = .link t n → p = q

variable {s s' : State P T} {cs : List Addr}

lemma Shape.head_mem (h : Shape s cs) : s.mHead ∈ cs := List.mem_of_mem_head? h.head

lemma Shape.eq_cons (h : Shape s cs) : cs = s.mHead :: cs.tail := by
  cases cs with
  | nil => exact absurd h.head (by simp)
  | cons a rest =>
    have ha : a = s.mHead := by simpa using h.head
    rw [ha, List.tail_cons]

/-- Changes away from the chain, and of producers that are not at their link store, keep the
shape. `stop` may clear `m_tail`. -/
lemma Shape.frame (h : Shape s cs) (hhead : s'.mHead = s.mHead)
    (htail : s'.mTail = none ∨ s'.mTail = s.mTail)
    (hnext : ∀ a ∈ cs, s'.next a = s.next a) (hlive : ∀ a ∈ cs, s'.Live a)
    (hlink : ∀ p t n, s'.producers p = .link t n ↔ s.producers p = .link t n) :
    Shape s' cs := by
  have hedge : ∀ a b, a ∈ cs → s.Edge a b → s'.Edge a b := by
    intro a b ha hab
    unfold State.Edge at hab ⊢
    rw [hnext a ha]
    simpa only [hlink] using hab
  refine ⟨hhead ▸ h.head, h.nodup, hlive, ?_, ?_, ?_, ?_, ?_⟩
  · exact List.IsChain.imp_of_mem_imp (fun a b ha _ => hedge a b ha) h.edges
  · intro a ha
    rw [hnext a (List.mem_of_getLast? ha)]
    exact h.last a ha
  · rcases htail with ht | ht
    · exact Or.inl ht
    · rw [ht]
      exact h.tail
  · intro p t n hp
    obtain ⟨ht, hn, hl⟩ := h.pending p t n ((hlink p t n).mp hp)
    exact ⟨ht, (hnext t ht).trans hn, hl⟩
  · intro p q t m n hp hq
    exact h.pending_inj p q t m n ((hlink p t m).mp hp) ((hlink q t n).mp hq)

/-- `stop` and the steps of the consumer that do not store leave the shape alone. -/
lemma Shape.congr (h : Shape s cs) (hheap : s'.heap = s.heap) (hhead : s'.mHead = s.mHead)
    (htail : s'.mTail = none ∨ s'.mTail = s.mTail) (hprod : s'.producers = s.producers) :
    Shape s' cs := by
  have hnext : s'.next = s.next := by
    funext a
    simp only [State.next, hheap]
  refine h.frame hhead htail (fun a _ => congrFun hnext a) (fun a ha => ?_) ?_
  · simpa only [State.Live, hheap] using h.live a ha
  · intro p t n
    rw [hprod]

/-- The head store: the consumer moves past its stub to the node linked to it. -/
lemma Shape.pop (h : Shape s cs) {n : Addr} (hn : s.next s.mHead = some n)
    (hhead : s'.mHead = n) (hheap : s'.heap = s.heap) (htail : s'.mTail = s.mTail)
    (hprod : s'.producers = s.producers) :
    ∃ rest, cs = s.mHead :: n :: rest ∧ Shape s' (n :: rest) := by
  have hnext : s'.next = s.next := by
    funext a
    simp only [State.next, hheap]
  have hedge : s'.Edge = s.Edge := by
    funext a b
    simp only [State.Edge, hnext, hprod]
  obtain ⟨rest, hcs⟩ : ∃ rest, cs = s.mHead :: rest := ⟨_, h.eq_cons⟩
  subst hcs
  cases rest with
  | nil =>
    have := h.last s.mHead rfl
    rw [hn] at this
    cases this
  | cons b rest =>
    have hb : b = n := by
      rcases (List.isChain_cons_cons.mp h.edges).1 with hb | hb
      · exact Option.some.inj (hb.symm.trans hn)
      · rw [hn] at hb
        exact absurd hb.1 (by simp)
    subst hb
    have hlast : (s.mHead :: b :: rest).getLast? = (b :: rest).getLast? :=
      List.getLast?_cons_cons
    refine ⟨rest, rfl, ?_, (List.nodup_cons.mp h.nodup).2, ?_, ?_, ?_, ?_, ?_, ?_⟩
    · rw [hhead]
      rfl
    · intro a ha
      simpa only [State.Live, hheap] using h.live a (List.mem_cons_of_mem _ ha)
    · rw [hedge]
      exact (List.isChain_cons_cons.mp h.edges).2
    · intro a ha
      rw [hnext]
      exact h.last a (hlast.trans ha)
    · rw [htail, ← hlast]
      exact h.tail
    · intro p t m hp
      rw [hprod] at hp
      obtain ⟨ht, htn, hl⟩ := h.pending p t m hp
      rw [hnext, ← hlast]
      refine ⟨(List.mem_cons.mp ht).resolve_left ?_, htn, hl⟩
      rintro rfl
      rw [hn] at htn
      cases htn
    · intro p q t m k hp hq
      rw [hprod] at hp hq
      exact h.pending_inj p q t m k hp hq

/-- Two ways along edges that have only one target, from the same start to ends without edges. -/
lemma chain_unique {r : Addr → Addr → Prop} (hr : ∀ a b c, r a b → r a c → b = c)
    {cs ds : List Addr} (hcs : cs.IsChain r) (hds : ds.IsChain r) (hhead : cs.head? = ds.head?)
    (hclast : ∀ a, cs.getLast? = some a → ∀ b, ¬r a b)
    (hdlast : ∀ a, ds.getLast? = some a → ∀ b, ¬r a b) : cs = ds := by
  induction cs generalizing ds with
  | nil => exact (List.head?_eq_none_iff.mp hhead.symm).symm
  | cons a cs ih =>
    obtain ⟨ds, rfl⟩ : ∃ es, ds = a :: es := by
      cases ds with
      | nil => simp at hhead
      | cons d ds => exact ⟨ds, by simpa using hhead.symm⟩
    cases cs with
    | nil =>
      cases ds with
      | nil => rfl
      | cons d ds => exact absurd (List.isChain_cons_cons.mp hds).1 (hclast a rfl d)
    | cons c cs =>
      cases ds with
      | nil => exact absurd (List.isChain_cons_cons.mp hcs).1 (hdlast a rfl c)
      | cons d ds =>
        obtain ⟨hac, hcs⟩ := List.isChain_cons_cons.mp hcs
        obtain ⟨had, hds⟩ := List.isChain_cons_cons.mp hds
        obtain rfl := hr a c d hac had
        rw [ih hcs hds rfl (by simpa using hclast) (by simpa using hdlast)]

/-- The heap and the producers determine the chain. -/
lemma Shape.unique {ds : List Addr} (hc : Shape s cs) (hd : Shape s ds) : cs = ds := by
  have hedge : ∀ a b c, s.Edge a b → s.Edge a c → b = c := by
    rintro a b c (hb | ⟨hb, p, hp⟩) (hc' | ⟨hc', q, hq⟩)
    · exact Option.some.inj (hb.symm.trans hc')
    · simp [hb] at hc'
    · simp [hb] at hc'
    · obtain rfl := hc.pending_inj p q a b c hp hq
      rw [hp] at hq
      cases hq
      rfl
  have hlast : ∀ {es}, Shape s es → ∀ a, es.getLast? = some a → ∀ b, ¬s.Edge a b := by
    rintro es he a ha b (hb | ⟨-, p, hp⟩)
    · simp [he.last a ha] at hb
    · exact (he.pending p a b hp).2.2 ha
  exact chain_unique hedge hc.edges hd.edges (hc.head.trans hd.head.symm) (hlast hc) (hlast hd)

section producers
variable [DecidableEq P] {p : P}

/-- A producer that neither is nor gets to its link store does not matter for the chain. -/
lemma link_setProducer_iff {pc : EnqueuePc T} (hold : ∀ t n, s.producers p ≠ .link t n)
    (hnew : ∀ t n, pc ≠ .link t n) (q : P) (t n : Addr) :
    Function.update s.producers p pc q = .link t n ↔ s.producers q = .link t n := by
  by_cases hq : q = p
  · subst q
    simp [hold t n, hnew t n]
  · simp [Function.update_of_ne hq]

/-- The successful CAS: the producer's node becomes the last one, with the link still open. -/
lemma Shape.push (h : Shape s cs) {t n : Addr} (ht : s.mTail = some t) (hn : n ∉ cs)
    (hlive : s.Live n) (hnone : s.next n = none)
    (hold : ∀ t n, s.producers p ≠ .link t n) (hhead : s'.mHead = s.mHead)
    (hheap : s'.heap = s.heap) (htail : s'.mTail = some n)
    (hprod : s'.producers = Function.update s.producers p (.link t n)) :
    Shape s' (cs ++ [n]) := by
  have hnext : s'.next = s.next := by
    funext a
    simp only [State.next, hheap]
  have hcs : cs.getLast? = some t := by
    rcases h.tail with htl | htl
    · rw [ht] at htl
      cases htl
    · rw [← htl, ht]
  have htcs : t ∈ cs := List.mem_of_getLast? hcs
  have hlast : (cs ++ [n]).getLast? = some n := by simp
  have hself : s'.producers p = .link t n := by rw [hprod, Function.update_self]
  have hne : ∀ q t' m, s'.producers q = .link t' m → q = p ∧ t' = t ∨
      q ≠ p ∧ s.producers q = .link t' m := by
    intro q t' m hq
    rw [hprod] at hq
    by_cases hqp : q = p
    · subst q
      rw [Function.update_self] at hq
      cases hq
      exact Or.inl ⟨rfl, rfl⟩
    · rw [Function.update_of_ne hqp] at hq
      exact Or.inr ⟨hqp, hq⟩
  have hkeep : ∀ q t' m, s.producers q = .link t' m → s'.producers q = .link t' m := by
    intro q t' m hq
    have hqp : q ≠ p := by
      rintro rfl
      exact hold _ _ hq
    rw [hprod, Function.update_of_ne hqp, hq]
  have htlast := h.last t hcs
  refine ⟨?_, ?_, ?_, ?_, ?_, Or.inr (htail.trans hlast.symm), ?_, ?_⟩
  · rw [hhead, List.head?_append, h.head]
    rfl
  · exact h.nodup.append (List.nodup_singleton n) (by simpa using hn)
  · intro a ha
    have : s.Live a := by
      rcases List.mem_append.mp ha with ha | ha
      · exact h.live a ha
      · rwa [List.mem_singleton.mp ha]
    simpa only [State.Live, hheap] using this
  · rw [List.isChain_append]
    refine ⟨?_, List.isChain_singleton n, ?_⟩
    · refine h.edges.imp fun a b hab => ?_
      unfold State.Edge at hab ⊢
      rw [hnext]
      exact hab.imp_right (And.imp_right (Exists.imp fun q hq => hkeep q a b hq))
    · intro a ha b hb
      rw [hcs] at ha
      cases ha
      simp only [List.head?_cons, Option.mem_def, Option.some.injEq] at hb
      subst hb
      refine Or.inr ⟨?_, p, hself⟩
      rw [hnext]
      exact htlast
  · intro a ha
    rw [hlast] at ha
    cases ha
    rw [hnext]
    exact hnone
  · intro q t' m hq
    rw [hlast, hnext]
    rcases hne q t' m hq with ⟨-, rfl⟩ | ⟨-, hq⟩
    · refine ⟨List.mem_append_left _ htcs, htlast, ?_⟩
      simp only [ne_eq, Option.some.injEq]
      rintro rfl
      exact hn htcs
    · obtain ⟨hmem, hnil, -⟩ := h.pending q t' m hq
      refine ⟨List.mem_append_left _ hmem, hnil, ?_⟩
      simp only [ne_eq, Option.some.injEq]
      rintro rfl
      exact hn hmem
  · -- the open link at the old last node is the only one there
    intro q r t' m k hq hr
    rcases hne q t' m hq with ⟨rfl, rfl⟩ | ⟨hqp, hq⟩ <;>
      rcases hne r t' k hr with ⟨rfl, hrt⟩ | ⟨hrp, hr⟩
    · rfl
    · exact absurd hcs (h.pending r _ k hr).2.2
    · subst hrt
      exact absurd hcs (h.pending q _ m hq).2.2
    · exact h.pending_inj q r t' m k hq hr

/-- The link store closes the gap after `t` and no other. -/
lemma Shape.link (h : Shape s cs) {t n : Addr} {pc : EnqueuePc T}
    (hp : s.producers p = .link t n) (hpc : ∀ t n, pc ≠ .link t n)
    (hhead : s'.mHead = s.mHead) (htail : s'.mTail = s.mTail)
    (hnext : ∀ a, s'.next a = if a = t then some n else s.next a)
    (hlive : ∀ a ∈ cs, s'.Live a)
    (hprod : s'.producers = Function.update s.producers p pc) : Shape s' cs := by
  obtain ⟨htcs, htnone, htlast⟩ := h.pending p t n hp
  have hother : ∀ q t' m, s'.producers q = .link t' m →
      q ≠ p ∧ s.producers q = .link t' m ∧ t' ≠ t := by
    intro q t' m hq
    rw [hprod] at hq
    by_cases hqp : q = p
    · subst q
      rw [Function.update_self] at hq
      exact absurd hq (hpc t' m)
    · rw [Function.update_of_ne hqp] at hq
      refine ⟨hqp, hq, ?_⟩
      rintro rfl
      exact hqp (h.pending_inj q p t' m n hq hp)
  refine ⟨hhead ▸ h.head, h.nodup, hlive, ?_, ?_, ?_, ?_, ?_⟩
  · refine h.edges.imp fun a b hab => ?_
    unfold State.Edge at hab ⊢
    rw [hnext]
    by_cases ha : a = t
    · subst ha
      rcases hab with hab | ⟨-, q, hq⟩
      · rw [htnone] at hab
        cases hab
      · have hqp := h.pending_inj q p a b n hq hp
        subst hqp
        rw [hp] at hq
        cases hq
        exact Or.inl (if_pos rfl)
    · rw [if_neg ha]
      refine hab.imp_right (And.imp_right (Exists.imp fun q hq => ?_))
      have hqp : q ≠ p := by
        rintro rfl
        rw [hp] at hq
        cases hq
        exact ha rfl
      rw [hprod, Function.update_of_ne hqp, hq]
  · intro a ha
    have hat : a ≠ t := by
      rintro rfl
      exact htlast ha
    rw [hnext, if_neg hat]
    exact h.last a ha
  · rw [htail]
    exact h.tail
  · intro q t' m hq
    obtain ⟨-, hq, hne⟩ := hother q t' m hq
    rw [hnext, if_neg hne]
    exact h.pending q t' m hq
  · intro q r t' m k hq hr
    exact h.pending_inj q r t' m k (hother q t' m hq).2.1 (hother r t' k hr).2.1

end producers

end Scoro.AtomicQueue
