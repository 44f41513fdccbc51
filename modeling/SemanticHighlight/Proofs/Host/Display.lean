import SemanticHighlight.Host
import SemanticHighlight.Proofs.Highlight.Adds

/-!
# What a host displays

A display reads from a host's state the highlights that are held under each buffer and namespace and
the namespaces that have been handed out. A host shows a display if it hands out new namespaces only
and applies a batch in order or not at all; each call may fail at any time. `screenHost` is such a
host, whose calls fail as a list of decisions says.
-/

set_option autoImplicit false

namespace SemanticHighlight

abbrev Shown := BufferId → NamespaceId → List Op

structure Display (σ : Type) where
  held : σ → Shown
  handedOut : σ → NamespaceId → Prop
  /-- What a clear of the lines from one to another leaves of some highlights. -/
  cleared : Int → Int → List Op → List Op

namespace Display

variable {σ : Type}

def changed (d : Display σ) (held : List Op) : Op → List Op
  | .clear _ _ fromLine toLine => d.cleared fromLine toLine held
  | op => held ++ [op]

def apply (d : Display σ) (shown : Shown) (op : Op) : Shown := fun b space =>
  if op.buffer = b ∧ op.space = space then d.changed (shown b space) op else shown b space

theorem apply_frame (d : Display σ) (ops : List Op) (shown : Shown) (b : BufferId)
    (space : NamespaceId) (h : ∀ op ∈ ops, ¬(op.buffer = b ∧ op.space = space)) :
    ops.foldl d.apply shown b space = shown b space := by
  induction ops generalizing shown with
  | nil => rfl
  | cons op ops ih =>
    rw [List.foldl_cons, ih _ fun o ho => h o (List.mem_cons_of_mem op ho)]
    exact if_neg (h op (by simp))

theorem apply_adds (d : Display σ) (ops : List Op) (shown : Shown) (b : BufferId)
    (space : NamespaceId) (h : ∀ op ∈ ops, op.AddsTo b space) :
    ops.foldl d.apply shown b space = shown b space ++ ops := by
  induction ops generalizing shown with
  | nil => simp
  | cons op ops ih =>
    obtain ⟨hc, hb, hs⟩ := h op (by simp)
    have hop : d.apply shown op b space = shown b space ++ [op] := by
      rw [apply, if_pos ⟨hb, hs⟩]
      cases op with
      | add => rfl
      | clear => cases hc
    rw [List.foldl_cons, ih _ fun o ho => h o (List.mem_cons_of_mem op ho), hop]
    simp

end Display

structure Host.Shows {σ : Type} (host : Host σ) (d : Display σ) : Prop where
  cleared_all : ∀ ops, d.cleared 0 Op.lastLine ops = []
  created_new : ∀ {b h space h'}, host.createNamespace b h = (.ok space, h') →
    ¬d.handedOut h space ∧ d.handedOut h' space
  create_held : ∀ {b h r h'}, host.createNamespace b h = (r, h') → d.held h' = d.held h
  create_kept : ∀ {b h r h' n}, host.createNamespace b h = (r, h') → d.handedOut h n →
    d.handedOut h' n
  applied : ∀ {ops h h'}, host.callAtomic ops h = (.ok (), h') →
    d.held h' = ops.foldl d.apply (d.held h)
  unapplied : ∀ {ops h e h'}, host.callAtomic ops h = (.error e, h') → d.held h' = d.held h
  call_kept : ∀ {ops h r h' n}, host.callAtomic ops h = (r, h') → d.handedOut h n →
    d.handedOut h' n

namespace Host.Shows

variable {σ : Type} {host : Host σ} {d : Display σ}

theorem clear_then_adds (hd : host.Shows d) (ops : List Op) (shown : Shown) (b : BufferId)
    (space : NamespaceId) (h : ∀ op ∈ ops, op.AddsTo b space) :
    (Op.clearAll b space :: ops).foldl d.apply shown b space = ops := by
  have hc : d.apply shown (.clearAll b space) b space = [] := by
    rw [Display.apply, if_pos ⟨rfl, rfl⟩]
    exact hd.cleared_all _
  rw [List.foldl_cons, Display.apply_adds d ops _ b space h, hc, List.nil_append]

theorem call_frame (hd : host.Shows d) {ops : List Op} {h h' : σ} {r : Except HostError Unit}
    (hcall : host.callAtomic ops h = (r, h')) (b : BufferId) (space : NamespaceId)
    (hops : ∀ op ∈ ops, ¬(op.buffer = b ∧ op.space = space)) :
    d.held h' b space = d.held h b space := by
  cases r with
  | error e => rw [hd.unapplied hcall]
  | ok u => rw [hd.applied hcall, Display.apply_frame d ops _ b space hops]

end Host.Shows

/-- A host that keeps its highlights in one list and hands out 1, 2, 3, …; a clear takes all that is
held under its buffer and namespace. -/
structure Screen where
  highlights : List Op := []
  created : Nat := 0
  /-- Whether the next calls are refused; calls beyond the list are not. -/
  refusals : List Bool := []

namespace Screen

def draw (highlights : List Op) : Op → List Op
  | .clear b space _ _ => highlights.filter fun op => ¬(op.buffer = b ∧ op.space = space)
  | op => highlights ++ [op]

def refused (s : Screen) : Bool := s.refusals.headD false

def createNamespace (_ : BufferId) (s : Screen) : Except HostError NamespaceId × Screen :=
  let answered := { s with refusals := s.refusals.tail }
  if s.refused then (.error (.rejected "no namespace"), answered)
  else (.ok (s.created + 1), { answered with created := s.created + 1 })

def callAtomic (ops : List Op) (s : Screen) : Except HostError Unit × Screen :=
  let answered := { s with refusals := s.refusals.tail }
  if s.refused then (.error (.rejected "no batch"), answered)
  else (.ok (), { answered with highlights := ops.foldl draw s.highlights })

def display : Display Screen where
  held s b space := s.highlights.filter fun op => op.buffer = b ∧ op.space = space
  handedOut s space := 1 ≤ space ∧ space ≤ s.created
  cleared _ _ _ := []

theorem draw_apply (highlights : List Op) (op : Op) (b : BufferId) (space : NamespaceId) :
    (draw highlights op).filter (fun op => op.buffer = b ∧ op.space = space) =
      display.apply (fun b space => highlights.filter fun op => op.buffer = b ∧ op.space = space)
        op b space := by
  rw [Display.apply]
  by_cases h : op.buffer = b ∧ op.space = space
  · rw [if_pos h]
    obtain ⟨rfl, rfl⟩ := h
    cases op with
    | add => simp [draw, Display.changed]
    | clear =>
      simp only [draw, List.filter_filter]
      refine List.filter_eq_nil_iff.mpr ?_
      intro op _ hop
      simp only [Bool.and_eq_true, decide_eq_true_eq] at hop
      exact hop.2 hop.1
  · rw [if_neg h]
    cases op with
    | add => simp [draw, List.filter_append, h]
    | clear b' space' =>
      simp only [draw, List.filter_filter]
      apply List.filter_congr
      intro op _
      by_cases hop : op.buffer = b ∧ op.space = space
      · have hne : ¬(op.buffer = b' ∧ op.space = space') := by
          rintro ⟨rfl, rfl⟩
          exact h hop
        rw [decide_eq_true hop, decide_eq_true hne]
        rfl
      · simp [hop]

theorem held_draw (ops highlights : List Op) :
    (fun b space => (ops.foldl draw highlights).filter fun op => op.buffer = b ∧ op.space = space) =
      ops.foldl display.apply
        fun b space => highlights.filter fun op => op.buffer = b ∧ op.space = space := by
  induction ops generalizing highlights with
  | nil => rfl
  | cons op ops ih =>
    rw [List.foldl_cons, List.foldl_cons, ih]
    congr 1
    funext b space
    exact draw_apply highlights op b space

end Screen

def screenHost : Host Screen where
  createNamespace := Screen.createNamespace
  callAtomic := Screen.callAtomic

theorem screen_shows : screenHost.Shows Screen.display where
  cleared_all _ := rfl
  created_new {b h space h'} hc := by
    simp only [screenHost, Screen.createNamespace] at hc
    split at hc
    · cases hc
    · cases hc
      change ¬((1 : Int) ≤ h.created + 1 ∧ (h.created + 1 : Int) ≤ h.created) ∧
        ((1 : Int) ≤ h.created + 1 ∧ (h.created + 1 : Int) ≤ (h.created + 1 : Nat))
      omega
  create_held {b h r h'} hc := by
    simp only [screenHost, Screen.createNamespace] at hc
    split at hc <;> cases hc <;> rfl
  create_kept {b h r h' n} hc hn := by
    simp only [screenHost, Screen.createNamespace] at hc
    obtain ⟨hl, hu⟩ := hn
    split at hc <;> cases hc
    · exact ⟨hl, hu⟩
    · exact ⟨hl, Int.le_trans hu (Int.le_add_one (Int.le_refl _))⟩
  applied {ops h h'} hc := by
    simp only [screenHost, Screen.callAtomic] at hc
    split at hc
    · cases hc
    · cases hc
      exact Screen.held_draw ops h.highlights
  unapplied {ops h e h'} hc := by
    simp only [screenHost, Screen.callAtomic] at hc
    split at hc <;> cases hc
    rfl
  call_kept {ops h r h' n} hc hn := by
    simp only [screenHost, Screen.callAtomic] at hc
    split at hc <;> cases hc <;> exact hn

end SemanticHighlight
