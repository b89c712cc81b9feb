import CppPlay.Lib.LinkedList
import CppPlay.Lib.Run
import CppPlay.Lib.Threads
import Mathlib.Data.List.Sort

/-!
# The stack of `compare_exchange_weak`

The link of a new node is the expected value of the exchange, and an exchange that fails
writes the head that it found into it.  Nodes are never freed, so a pointer is the number
of a node in the order of their allocation.
-/

namespace CppPlay.MultiThread

open CppPlay.Lib

/-- A node, with the thread that made it. -/
structure StackNode (ι τ : Type) where
  data : τ
  next : Option ℕ
  owner : ι
  deriving DecidableEq

/-- Where a thread stands in `push`: outside, before the load of `head`, or before an
exchange. -/
inductive StackPc where
  | idle
  | loading (newNode : ℕ)
  | exchanging (newNode : ℕ)
  deriving DecidableEq

/-- A thread calls `push`, or makes its next step in it; an exchange may fail for no reason. -/
inductive StackEvent (ι τ : Type) where
  | push (t : ι) (data : τ)
  | advance (t : ι) (spurious : Bool)

/-- The stack with its threads; `pushes` are the calls that were made. -/
structure StackT (ι τ : Type) where
  heap : List (StackNode ι τ)
  head : Option ℕ
  pc : ι → StackPc
  pushes : List (ι × τ)

def StackPc.newNode : StackPc → Option ℕ
  | .idle => none
  | .loading newNode => some newNode
  | .exchanging newNode => some newNode

namespace StackT

variable {ι τ : Type}

def start : StackT ι τ := ⟨[], none, fun _ => .idle, []⟩

def next (s : StackT ι τ) (i : ℕ) : Option ℕ := s.heap[i]?.bind StackNode.next

def setNext (s : StackT ι τ) (i : ℕ) (link : Option ℕ) : List (StackNode ι τ) :=
  s.heap.modify i fun node => { node with next := link }

def element (s : StackT ι τ) (i : ℕ) : Option (ι × τ) :=
  s.heap[i]?.map fun node => (node.owner, node.data)

def Quiescent (s : StackT ι τ) : Prop := ∀ t, s.pc t = .idle

section Step

variable [DecidableEq ι]

/-- `new Node(data)` at the start of `push`. -/
def newNode (s : StackT ι τ) (t : ι) (data : τ) : StackT ι τ :=
  { s with
    heap := s.heap ++ [⟨data, none, t⟩]
    pc := Function.update s.pc t (.loading s.heap.length)
    pushes := s.pushes ++ [(t, data)] }

def step (s : StackT ι τ) : StackEvent ι τ → StackT ι τ
  | .push t data => if s.pc t = .idle then s.newNode t data else s
  | .advance t spurious =>
      match s.pc t with
      | .idle => s
      | .loading newNode =>
          { s with
            heap := s.setNext newNode s.head
            pc := Function.update s.pc t (.exchanging newNode) }
      | .exchanging newNode =>
          if s.next newNode = s.head ∧ spurious = false then
            { s with
              head := some newNode
              pc := Function.update s.pc t .idle }
          else { s with heap := s.setNext newNode s.head }

end Step

/-- The list from the head holds every push once, and those of a thread in reverse order. -/
structure HoldsPushes [DecidableEq ι] (s : StackT ι τ) : Prop where
  ends : ∃ nodes, Linked s.next s.head nodes
  allocated : ∀ nodes, Linked s.next s.head nodes → ∀ i ∈ nodes, i < s.heap.length
  once : ∀ nodes, Linked s.next s.head nodes → (nodes.filterMap s.element).Perm s.pushes
  order : ∀ nodes, Linked s.next s.head nodes → ∀ t,
    (nodes.filterMap s.element).filter (fun push => push.1 = t) =
      (s.pushes.filter fun push => push.1 = t).reverse

/-! ## The nodes on the list and those on their way -/

def owner (s : StackT ι τ) (i : ℕ) : Option ι := (s.element i).map Prod.fst

/-- A push in progress has the newest node of its thread, and all other nodes are linked. -/
structure Inv (s : StackT ι τ) (nodes : List ℕ) : Prop where
  linked : Linked s.next s.head nodes
  recorded : s.heap.map (fun node => (node.owner, node.data)) = s.pushes
  allocated : ∀ i ∈ nodes, i < s.heap.length
  placed : ∀ i < s.heap.length, i ∈ nodes ∨ ∃ t, (s.pc t).newNode = some i
  unlinked : ∀ t i, (s.pc t).newNode = some i → i ∉ nodes
  newest : ∀ t i, (s.pc t).newNode = some i →
    s.owner i = some t ∧ ∀ j, s.owner j = some t → j ≤ i
  ordered : nodes.Pairwise fun i j => s.owner i = s.owner j → j < i

theorem start_inv : (start : StackT ι τ).Inv [] := by
  constructor
  · exact rfl
  · exact rfl
  · exact fun i hi => absurd hi List.not_mem_nil
  · exact fun i hi => absurd hi (Nat.not_lt_zero i)
  · exact fun t i hi => absurd hi (by simp [start, StackPc.newNode])
  · exact fun t i hi => absurd hi (by simp [start, StackPc.newNode])
  · exact List.Pairwise.nil

variable {s : StackT ι τ} {nodes : List ℕ}

theorem lt_length_of_owner {t : ι} {i : ℕ} (howner : s.owner i = some t) : i < s.heap.length := by
  by_contra hlate
  rw [owner, element, List.getElem?_eq_none (Nat.not_lt.mp hlate)] at howner
  cases howner

theorem Inv.length_heap (hinv : s.Inv nodes) : s.heap.length = s.pushes.length := by
  rw [← hinv.recorded, List.length_map]

theorem Inv.element_eq (hinv : s.Inv nodes) (i : ℕ) : s.element i = s.pushes[i]? := by
  rw [element, ← hinv.recorded, List.getElem?_map]

theorem Inv.nodup (hinv : s.Inv nodes) : nodes.Nodup :=
  hinv.ordered.imp fun hlower hsame => absurd (hlower (congrArg s.owner hsame)) (by omega)

theorem element_setNext (s : StackT ι τ) (newNode i : ℕ) (link : Option ℕ) (pc : ι → StackPc) :
    ({ s with heap := s.setNext newNode link, pc := pc } : StackT ι τ).element i =
      s.element i := by
  simp only [element, setNext, List.getElem?_modify]
  cases s.heap[i]? <;> split_ifs <;> simp

theorem next_setNext_of_ne (s : StackT ι τ) {newNode i : ℕ} (hne : newNode ≠ i)
    (link : Option ℕ) (pc : ι → StackPc) :
    ({ s with heap := s.setNext newNode link, pc := pc } : StackT ι τ).next i = s.next i := by
  simp only [next, setNext, List.getElem?_modify_ne _ _ hne]

/-- A write to the link of a node that is not on the list. -/
theorem Inv.setNext (hinv : s.Inv nodes) {newNode : ℕ} (hnew : newNode ∉ nodes)
    (link : Option ℕ) {pc : ι → StackPc} (hpc : ∀ t, (pc t).newNode = (s.pc t).newNode) :
    Inv { s with heap := s.setNext newNode link, pc := pc } nodes := by
  have helement := fun i => element_setNext s newNode i link pc
  constructor
  · apply hinv.linked.congr
    intro i hi
    have hne : newNode ≠ i := fun hsame => hnew (hsame.symm ▸ hi)
    exact next_setNext_of_ne s hne link pc
  · rw [← hinv.recorded]
    apply List.ext_getElem?
    intro i
    rw [List.getElem?_map, List.getElem?_map]
    exact helement i
  · simpa only [StackT.setNext, List.length_modify] using hinv.allocated
  · intro i hi
    simp only [StackT.setNext, List.length_modify] at hi
    simpa only [hpc] using hinv.placed i hi
  · intro t i hi
    exact hinv.unlinked t i ((hpc t) ▸ hi)
  · intro t i hi
    simpa only [owner, helement] using hinv.newest t i ((hpc t) ▸ hi)
  · simpa only [owner, helement] using hinv.ordered

theorem Inv.perm_range (hinv : s.Inv nodes) (hquiescent : s.Quiescent) :
    nodes.Perm (List.range s.heap.length) := by
  rw [List.perm_ext_iff_of_nodup hinv.nodup List.nodup_range]
  intro i
  rw [List.mem_range]
  constructor
  · exact hinv.allocated i
  · intro hi
    rcases hinv.placed i hi with hmem | ⟨t, ht⟩
    · exact hmem
    · rw [hquiescent t] at ht
      cases ht

theorem Inv.element_range (hinv : s.Inv nodes) :
    (List.range s.heap.length).filterMap s.element = s.pushes := by
  have hsame : s.element = fun i => s.pushes[i]? := funext hinv.element_eq
  rw [hsame, hinv.length_heap, filterMap_range_getElem?]

section Step

variable [DecidableEq ι]

theorem newNode_of_update_idle {pc : ι → StackPc} {t u : ι} {i : ℕ}
    (hi : (Function.update pc t .idle u).newNode = some i) :
    u ≠ t ∧ (pc u).newNode = some i := by
  by_cases hsame : u = t
  · rw [hsame, Function.update_self] at hi
    cases hi
  · rw [Function.update_of_ne hsame] at hi
    exact ⟨hsame, hi⟩

theorem Inv.exchange (hinv : s.Inv nodes) {t : ι} {newNode : ℕ}
    (hpc : s.pc t = .exchanging newNode) (hnext : s.next newNode = s.head) :
    Inv { s with head := some newNode, pc := Function.update s.pc t .idle }
      (newNode :: nodes) := by
  have hnewNode : (s.pc t).newNode = some newNode := by rw [hpc]; rfl
  have hunlinked := hinv.unlinked t newNode hnewNode
  obtain ⟨howner, hnewest⟩ := hinv.newest t newNode hnewNode
  constructor
  · exact hinv.linked.cons hnext
  · exact hinv.recorded
  · intro i hi
    rcases List.mem_cons.mp hi with hsame | hmem
    · rw [hsame]
      exact lt_length_of_owner howner
    · exact hinv.allocated i hmem
  · intro i hi
    rcases hinv.placed i hi with hmem | ⟨u, hu⟩
    · exact .inl (List.mem_cons_of_mem _ hmem)
    · by_cases hsame : u = t
      · rw [hsame, hnewNode] at hu
        exact .inl (List.mem_cons.mpr (.inl (Option.some.inj hu).symm))
      · exact .inr ⟨u, by simpa only [Function.update_of_ne hsame] using hu⟩
  · intro u i hi
    obtain ⟨hne, hu⟩ := newNode_of_update_idle hi
    rw [List.mem_cons, not_or]
    refine ⟨?_, hinv.unlinked u i hu⟩
    intro hsame
    have hothers := (hinv.newest u i hu).1
    rw [hsame, howner] at hothers
    exact hne (Option.some.inj hothers).symm
  · intro u i hi
    exact hinv.newest u i (newNode_of_update_idle hi).2
  · refine List.pairwise_cons.mpr ⟨?_, hinv.ordered⟩
    intro j hj hsame
    have hne : j ≠ newNode := fun heq => hunlinked (heq ▸ hj)
    exact lt_of_le_of_ne (hnewest j (hsame.symm.trans howner)) hne

section NewNode

variable {t : ι} {data : τ} {i : ℕ}

theorem length_newNode : (s.newNode t data).heap.length = s.heap.length + 1 := by
  rw [newNode, List.length_append, List.length_singleton]

theorem getElem?_newNode (hi : i < s.heap.length) : (s.newNode t data).heap[i]? = s.heap[i]? :=
  List.getElem?_append_left hi

theorem owner_newNode (hi : i < s.heap.length) : (s.newNode t data).owner i = s.owner i := by
  rw [owner, owner, element, element, getElem?_newNode hi]

theorem owner_newNode_length : (s.newNode t data).owner s.heap.length = some t := by
  simp [owner, element, newNode]

theorem pc_newNode_self : (s.newNode t data).pc t = .loading s.heap.length :=
  Function.update_self _ _ _

theorem pc_newNode_of_ne {u : ι} (hne : u ≠ t) : (s.newNode t data).pc u = s.pc u :=
  Function.update_of_ne hne _ _

theorem pc_newNode {u : ι} (hi : ((s.newNode t data).pc u).newNode = some i) :
    u = t ∧ i = s.heap.length ∨ u ≠ t ∧ (s.pc u).newNode = some i := by
  by_cases hsame : u = t
  · rw [hsame, pc_newNode_self] at hi
    exact .inl ⟨hsame, (Option.some.inj hi).symm⟩
  · rw [pc_newNode_of_ne hsame] at hi
    exact .inr ⟨hsame, hi⟩

theorem Inv.newNode (hinv : s.Inv nodes) (hpc : s.pc t = .idle) :
    (s.newNode t data).Inv nodes := by
  constructor
  · apply hinv.linked.congr
    intro i hi
    rw [next, next, getElem?_newNode (hinv.allocated i hi)]
  · rw [StackT.newNode, List.map_append, hinv.recorded]
    rfl
  · intro i hi
    rw [length_newNode]
    exact (hinv.allocated i hi).trans (Nat.lt_succ_self _)
  · intro i hi
    rw [length_newNode, Nat.lt_succ_iff_lt_or_eq] at hi
    rcases hi with hearlier | hnew
    · rcases hinv.placed i hearlier with hmem | ⟨u, hu⟩
      · exact .inl hmem
      · have hne : u ≠ t := by
          intro hsame
          rw [hsame, hpc] at hu
          cases hu
        exact .inr ⟨u, by rw [pc_newNode_of_ne hne, hu]⟩
    · exact .inr ⟨t, by rw [pc_newNode_self, hnew, StackPc.newNode]⟩
  · intro u i hi hmem
    rcases pc_newNode hi with ⟨_, hnew⟩ | ⟨_, hu⟩
    · exact absurd (hinv.allocated i hmem) (by omega)
    · exact hinv.unlinked u i hu hmem
  · intro u i hi
    have hlatest : ∀ j, (s.newNode t data).owner j = some u →
        j < s.heap.length ∧ s.owner j = some u ∨ j = s.heap.length ∧ u = t := by
      intro j hj
      have hlt := lt_length_of_owner hj
      rw [length_newNode, Nat.lt_succ_iff_lt_or_eq] at hlt
      rcases hlt with hearlier | hnew
      · rw [owner_newNode hearlier] at hj
        exact .inl ⟨hearlier, hj⟩
      · rw [hnew, owner_newNode_length] at hj
        exact .inr ⟨hnew, (Option.some.inj hj).symm⟩
    rcases pc_newNode hi with ⟨hsame, hnew⟩ | ⟨hne, hu⟩
    · rw [hnew, hsame]
      refine ⟨owner_newNode_length, ?_⟩
      intro j hj
      have hlt := lt_length_of_owner hj
      rw [length_newNode] at hlt
      exact Nat.le_of_lt_succ hlt
    · obtain ⟨howner, hnewest⟩ := hinv.newest u i hu
      refine ⟨by rw [owner_newNode (lt_length_of_owner howner), howner], ?_⟩
      intro j hj
      rcases hlatest j hj with ⟨_, hold⟩ | ⟨_, hsame⟩
      · exact hnewest j hold
      · exact absurd hsame hne
  · apply hinv.ordered.imp_of_mem
    intro i j hi hj hlower
    rw [owner_newNode (hinv.allocated i hi), owner_newNode (hinv.allocated j hj)]
    exact hlower

end NewNode

theorem exists_inv_step (hinv : s.Inv nodes) (event : StackEvent ι τ) :
    ∃ nodes', (s.step event).Inv nodes' := by
  cases event with
  | push t data =>
      by_cases hpc : s.pc t = .idle
      · rw [step, if_pos hpc]
        exact ⟨nodes, hinv.newNode hpc⟩
      · rw [step, if_neg hpc]
        exact ⟨nodes, hinv⟩
  | advance t spurious =>
      cases hpc : s.pc t with
      | idle =>
          simp only [step, hpc]
          exact ⟨nodes, hinv⟩
      | loading newNode =>
          simp only [step, hpc]
          refine ⟨nodes, hinv.setNext (hinv.unlinked t newNode (by rw [hpc]; rfl)) _ ?_⟩
          intro u
          by_cases hsame : u = t
          · rw [hsame, Function.update_self, hpc]
            rfl
          · rw [Function.update_of_ne hsame]
      | exchanging newNode =>
          simp only [step, hpc]
          split_ifs with hexchange
          · exact ⟨newNode :: nodes, hinv.exchange hpc hexchange.1⟩
          · exact ⟨nodes, hinv.setNext (hinv.unlinked t newNode (by rw [hpc]; rfl)) _ fun _ => rfl⟩

/-! ## With no push in progress -/

theorem filter_filterMap_element (s : StackT ι τ) (nodes : List ℕ) (t : ι) :
    (nodes.filterMap s.element).filter (fun push => push.1 = t) =
      (nodes.filter fun i => s.owner i = some t).filterMap s.element := by
  rw [List.filter_filterMap, List.filterMap_filter]
  apply List.filterMap_congr
  intro i _
  unfold owner
  cases hpush : s.element i with
  | none => simp
  | some push => by_cases howner : push.1 = t <;> simp [Option.filter, howner]

/-- The nodes of one thread stand from the newest to the oldest. -/
theorem Inv.filter_owner (hinv : s.Inv nodes) (hquiescent : s.Quiescent) (t : ι) :
    (nodes.filter fun i => s.owner i = some t) =
      ((List.range s.heap.length).filter fun i => s.owner i = some t).reverse := by
  have hnodes : (nodes.filter fun i => s.owner i = some t).Pairwise (fun i j => j < i) := by
    rw [List.pairwise_filter]
    apply hinv.ordered.imp
    intro i j hlower hi hj
    rw [decide_eq_true_iff] at hi hj
    exact hlower (hi.trans hj.symm)
  have hrange : ((List.range s.heap.length).filter fun i => s.owner i = some t).reverse.Pairwise
      (fun i j => j < i) := by
    rw [List.pairwise_reverse]
    exact List.pairwise_lt_range.filter _
  have hperm := (hinv.perm_range hquiescent).filter fun i => s.owner i = some t
  apply List.Perm.eq_of_pairwise _ hnodes hrange (hperm.trans (List.reverse_perm _).symm)
  intro i j _ _ hlt hgt
  exact absurd hlt hgt.asymm

theorem Inv.holdsPushes (hinv : s.Inv nodes) (hquiescent : s.Quiescent) : s.HoldsPushes := by
  have hunique : ∀ other, Linked s.next s.head other → other = nodes :=
    fun other hother => hother.unique hinv.linked
  constructor
  · exact ⟨nodes, hinv.linked⟩
  · intro other hother
    rw [hunique other hother]
    exact hinv.allocated
  · intro other hother
    rw [hunique other hother]
    have hperm := (hinv.perm_range hquiescent).filterMap s.element
    rwa [hinv.element_range] at hperm
  · intro other hother t
    rw [hunique other hother, filter_filterMap_element, hinv.filter_owner hquiescent,
      List.filterMap_reverse, ← filter_filterMap_element, hinv.element_range]

/-- In every state with no push in progress the list from the head holds each push once, those
of a thread in reverse order. -/
theorem holdsPushes_of_quiescent (events : List (StackEvent ι τ))
    (hquiescent : (run step start events).Quiescent) : (run step start events).HoldsPushes := by
  obtain ⟨nodes, hinv⟩ : ∃ nodes, (run step start events : StackT ι τ).Inv nodes :=
    run_invariant (fun s : StackT ι τ => ∃ nodes, s.Inv nodes) ⟨[], start_inv⟩
      (fun _ event ⟨_, hinv⟩ => exists_inv_step hinv event) events
  exact hinv.holdsPushes hquiescent

end Step

/-- Both load the empty head; the second fails once for each reason before it succeeds. -/
def twoPushes (t u : ι) : List (StackEvent ι ℕ) :=
  [.push t 7, .push u 8, .advance t false, .advance u false, .advance t false, .advance u false,
    .advance u true, .advance u false]

theorem holdsPushes_twoPushes :
    (run step start (twoPushes true false)).head = some 1 ∧
      (run step start (twoPushes true false)).HoldsPushes :=
  ⟨by decide, holdsPushes_of_quiescent (twoPushes true false) (by unfold Quiescent; decide)⟩

end StackT

end CppPlay.MultiThread
