import PipelineIQ.Frontend.PipelineEditor
import PipelineIQ.Lib.Lww
import PipelineIQ.Lib.Machine

namespace PipelineIQ.Frontend.Collaboration

open PipelineIQ.Lib.Strings PipelineIQ.Lib.Lww PipelineIQ.Lib.Machine
  PipelineIQ.Frontend.PipelineEditor

/-! ### Two clients and the documents they share -/

/-- A browser: what it shows, the armed calls of the two debounced synchronizations with what they
were last called with, the two flags, and the timeouts that are to lower them. -/
structure Client (R C : Type) where
  canvas : Canvas R C
  nodesTimer : Option (Text → Option (Node R C))
  edgesTimer : Option (Text → Option Edge)
  localSyncing : Bool
  yjsSyncing : Bool
  localResets : Nat
  yjsResets : Nat

/-- The updates of the two maps may overtake each other, which those of one map may not. The last
field is what one canvas shows on which all edits so far were made. -/
structure Session (R C : Type) where
  client : Side → Client R C
  nodes : Net Text (SerializedNode R C)
  edges : Net Text SerializedEdge
  truth : Canvas R C

inductive SharedMap where
  | nodes | edges
  deriving DecidableEq, Repr

inductive Event (R C : Type) where
  | edit (c : Side) (e : Edit R C)
  | syncNodesToYjs (c : Side) (stamp : Nat)
  | syncEdgesToYjs (c : Side) (stamp : Nat)
  | deliver (c : Side) (map : SharedMap)
  | resetLocal (c : Side)
  | resetYjs (c : Side)
  deriving DecidableEq, Repr

section Model

variable {R C : Type}

def shownNodes (doc : List (Update Text (SerializedNode R C))) (id : Text) : Option (Node R C) :=
  (get doc id).map deserializeNode

def shownEdges (doc : List (Update Text SerializedEdge)) (id : Text) : Option Edge :=
  (get doc id).map deserializeEdge

namespace Client

/-- An edit changes the canvas, and the effects on its nodes and edges arm the synchronizations. -/
def edit (client : Client R C) (e : Edit R C) : Client R C :=
  { client with
    canvas := client.canvas.edit e
    nodesTimer := some (client.canvas.edit e).nodes
    edgesTimer := if e.isDelete then some (client.canvas.edit e).edges else client.edgesTimer }

/-- The observer of the documents replaces what the client shows, which arms both too. -/
def observe (client : Client R C) (nodes : Text → Option (Node R C)) (edges : Text → Option Edge) :
    Client R C :=
  if client.localSyncing then client
  else
    { client with
      canvas := ⟨nodes, edges⟩
      nodesTimer := some nodes
      edgesTimer := some edges
      yjsSyncing := true
      yjsResets := client.yjsResets + 1 }

/-- The own transaction finds the observer switched off. -/
def synced (client : Client R C) : Client R C :=
  { client with localSyncing := true, localResets := client.localResets + 1 }

end Client

namespace Session

def setClient (s : Session R C) (c : Side) (client : Client R C) : Session R C :=
  { s with client := Function.update s.client c client }

def observe (s : Session R C) (c : Side) : Session R C :=
  s.setClient c ((s.client c).observe (shownNodes (s.nodes.doc c)) (shownEdges (s.edges.doc c)))

variable [EmptyCollection C]

def syncNodesToYjs (s : Session R C) (c : Side) (stamp : Nat) (nodes : Text → Option (Node R C)) :
    Option (Session R C) :=
  let client := { s.client c with nodesTimer := none }
  if client.yjsSyncing then some (s.setClient c client)
  else if s.nodes.Fresh c stamp then
    let items := fun id => (nodes id).map serializeNode
    some { s.setClient c client.synced with
      nodes := s.nodes.publish c (rewrite stamp items (s.nodes.doc c)) }
  else none

def syncEdgesToYjs (s : Session R C) (c : Side) (stamp : Nat) (edges : Text → Option Edge) :
    Option (Session R C) :=
  let client := { s.client c with edgesTimer := none }
  if client.yjsSyncing then some (s.setClient c client)
  else if s.edges.Fresh c stamp then
    let items := fun id => (edges id).map serializeEdge
    some { s.setClient c client.synced with
      edges := s.edges.publish c (rewrite stamp items (s.edges.doc c)) }
  else none

def deliver (s : Session R C) (c : Side) : SharedMap → Option (Session R C)
  | .nodes =>
    match s.nodes.inbox c with
    | [] => none
    | u :: rest => some ({ s with nodes := s.nodes.receive c u rest }.observe c)
  | .edges =>
    match s.edges.inbox c with
    | [] => none
    | u :: rest => some ({ s with edges := s.edges.receive c u rest }.observe c)

end Session

variable [EmptyCollection C]

/-- Each node is edited by one of the two clients only, its owner. -/
def step (owner : Text → Side) (s : Session R C) : Event R C → Option (Session R C)
  | .edit c e =>
    if owner e.node = c ∧ e.fits ((s.client c).canvas.nodes e.node) then
      some { s.setClient c ((s.client c).edit e) with truth := s.truth.edit e }
    else none
  | .syncNodesToYjs c stamp => (s.client c).nodesTimer.bind (s.syncNodesToYjs c stamp)
  | .syncEdgesToYjs c stamp => (s.client c).edgesTimer.bind (s.syncEdgesToYjs c stamp)
  | .deliver c map => s.deliver c map
  | .resetLocal c =>
    let client := s.client c
    if 0 < client.localResets then
      some (s.setClient c
        { client with localSyncing := false, localResets := client.localResets - 1 })
    else none
  | .resetYjs c =>
    let client := s.client c
    if 0 < client.yjsResets then
      some (s.setClient c { client with yjsSyncing := false, yjsResets := client.yjsResets - 1 })
    else none

/-- A canvas as it comes out of the documents. -/
structure Board (R C : Type) [EmptyCollection C] extends Canvas R C where
  nodes_stable : ∀ id node, nodes id = some node → deserializeNode (serializeNode node) = node
  edges_stable : ∀ id edge, edges id = some edge → deserializeEdge (serializeEdge edge) = edge
  closed : toCanvas.Closed

/-- Both clients show the board, which one of them has put into the empty documents. -/
def start (board : Board R C) : Session R C where
  client _ :=
    { canvas := board.toCanvas
      nodesTimer := none
      edgesTimer := none
      localSyncing := false
      yjsSyncing := false
      localResets := 0
      yjsResets := 0 }
  nodes :=
    { doc _ := [rewrite 0 (fun id => (board.nodes id).map serializeNode) []]
      inbox _ := [] }
  edges :=
    { doc _ := [rewrite 0 (fun id => (board.edges id).map serializeEdge) []]
      inbox _ := [] }
  truth := board.toCanvas

/-! ### What collaboration promises -/

/-- All updates are delivered, and no client has another one to send: what it would write is what
is there. -/
structure Settled (s : Session R C) : Prop where
  nodes_delivered : ∀ c, s.nodes.inbox c = []
  edges_delivered : ∀ c, s.edges.inbox c = []
  nodes_sent : ∀ c, ∀ nodes ∈ (s.client c).nodesTimer, nodes = shownNodes (s.nodes.doc c)
  edges_sent : ∀ c, ∀ edges ∈ (s.client c).edgesTimer, edges = shownEdges (s.edges.doc c)

/-- Once settled, both clients show one canvas, the one with all edits, and its edges have their
nodes. -/
def Merged (s : Session R C) : Prop :=
  Settled s → (s.client .left).canvas = (s.client .right).canvas ∧
    (∀ c, (s.client c).canvas = s.truth) ∧ ∀ c, (s.client c).canvas.Closed

/-- What `c` writes by rewriting the nodes: a node shows the same when it comes back; of the other
client's nodes it says what the other's document says; and of its own nothing else is on its way
that would count for more. -/
structure NodesAgree (owner : Text → Side) (net : Net Text (SerializedNode R C)) (c : Side)
    (stamp : Nat) (nodes : Text → Option (Node R C)) : Prop where
  shown : ∀ id node, nodes id = some node → deserializeNode (serializeNode node) = node
  others : ∀ id v, rewritten ((nodes id).map serializeNode) (get (net.doc c) id) = some v →
    owner id ≠ c → v = get (net.doc c.other) id
  own : ∀ id v, rewritten ((nodes id).map serializeNode) (get (net.doc c) id) = some v →
    owner id = c → net.Prevails c stamp id v

/-- The same for the edges: an edge that is written is in the other's document too. -/
structure EdgesAgree (net : Net Text SerializedEdge) (c : Side) (stamp : Nat)
    (edges : Text → Option Edge) : Prop where
  kept : ∀ id edge, edges id = some edge →
    some (serializeEdge edge) = get (net.doc c.other) id
  prevails : ∀ id v, rewritten ((edges id).map serializeEdge) (get (net.doc c) id) = some v →
    net.Prevails c stamp id v

/-- An update that is ignored brings nothing new. -/
def Idle {K V : Type} (net : Net K V) (c : Side) : Prop :=
  ∀ u ∈ (net.inbox c).head?, ∀ k, get (net.doc c ++ [u]) k = get (net.doc c) k

/-- The clients take turns: an update reaches a client that has no unsent edit of its own, a client
writes what the other one knows, and neither flag suppresses an event that brings something. -/
def Careful (owner : Text → Side) (s : Session R C) : Event R C → Prop
  | .syncNodesToYjs c stamp => ∀ nodes ∈ (s.client c).nodesTimer,
    if (s.client c).yjsSyncing then nodes = shownNodes (s.nodes.doc c)
    else NodesAgree owner s.nodes c stamp nodes
  | .syncEdgesToYjs c stamp => ∀ edges ∈ (s.client c).edgesTimer,
    if (s.client c).yjsSyncing then edges = shownEdges (s.edges.doc c)
    else EdgesAgree s.edges c stamp edges
  | .deliver c map =>
    if (s.client c).localSyncing then
      match map with
      | .nodes => Idle s.nodes c
      | .edges => Idle s.edges c
    else (s.client c).canvas = ⟨shownNodes (s.nodes.doc c), shownEdges (s.edges.doc c)⟩
  | .edit .. | .resetLocal _ | .resetYjs _ => True

end Model

/-! ### The invariant -/

section Invariant

variable {R C : Type}

/-- An armed call carries what is shown, and with none armed the document has what is shown. -/
structure Shows {N : Type} (canvas : Text → Option N) (timer : Option (Text → Option N))
    (shown : Text → Option N) : Prop where
  armed : ∀ items ∈ timer, items = canvas
  idle : timer = none → canvas = shown

theorem Shows.eq_of_sent {N : Type} {canvas shown : Text → Option N}
    {timer : Option (Text → Option N)} (h : Shows canvas timer shown)
    (hsent : ∀ items ∈ timer, items = shown) : canvas = shown := by
  cases htimer : timer with
  | none => exact h.idle htimer
  | some items => rw [← h.armed items htimer, hsent items htimer]

/-- A client shows of a key what all edits have made of it, and nothing on its way can change it. -/
structure Held {V N : Type} (canvas truth : Text → Option N) (net : Net Text V) (c : Side)
    (id : Text) : Prop where
  shows : canvas id = truth id
  steady : net.Steady c id

def HeldNode (s : Session R C) (c : Side) (id : Text) : Prop :=
  Held (s.client c).canvas.nodes s.truth.nodes s.nodes c id

def HeldEdge (s : Session R C) (c : Side) (id : Text) : Prop :=
  Held (s.client c).canvas.edges s.truth.edges s.edges c id

structure Inv (owner : Text → Side) (s : Session R C) : Prop where
  nodes_wf : s.nodes.Wf
  edges_wf : s.edges.Wf
  nodes_shown : ∀ c,
    Shows (s.client c).canvas.nodes (s.client c).nodesTimer (shownNodes (s.nodes.doc c))
  edges_shown : ∀ c,
    Shows (s.client c).canvas.edges (s.client c).edgesTimer (shownEdges (s.edges.doc c))
  stable : ∀ c id edge, (s.client c).canvas.edges id = some edge →
    deserializeEdge (serializeEdge edge) = edge
  nodes_held : ∀ id, HeldNode s (owner id) id
  -- an edge that is gone was deleted by one client, which holds on to that
  edges_held : ∀ id, ∃ c, HeldEdge s c id
  live : ∀ id, (s.truth.edges id).isSome → ∀ c, HeldEdge s c id
  closed : s.truth.Closed

variable {owner : Text → Side} {s t : Session R C} {c d : Side} {stamp : Nat}

@[simp] theorem setClient_client_self {client : Client R C} :
    (s.setClient c client).client c = client :=
  Function.update_self ..

@[simp] theorem setClient_client_other {client : Client R C} :
    (s.setClient c client).client c.other = s.client c.other :=
  Function.update_of_ne c.other_ne ..

theorem Inv.merged (h : Inv owner s) : Merged s := by
  intro hsettled
  have hnodes : ∀ c, (s.client c).canvas.nodes = shownNodes (s.nodes.doc c) := fun c =>
    (h.nodes_shown c).eq_of_sent (hsettled.nodes_sent c)
  have hedges : ∀ c, (s.client c).canvas.edges = shownEdges (s.edges.doc c) := fun c =>
    (h.edges_shown c).eq_of_sent (hsettled.edges_sent c)
  have heq : (s.client .left).canvas = (s.client .right).canvas := by
    apply Canvas.ext
    · rw [hnodes, hnodes]
      funext id
      rw [shownNodes, shownNodes, h.nodes_wf.converged hsettled.nodes_delivered]
    · rw [hedges, hedges]
      funext id
      rw [shownEdges, shownEdges, h.edges_wf.converged hsettled.edges_delivered]
  have hsame : ∀ c d, (s.client c).canvas = (s.client d).canvas := by
    intro c d
    cases c <;> cases d
    · rfl
    · exact heq
    · exact heq.symm
    · rfl
  have htruth : ∀ c, (s.client c).canvas = s.truth := by
    intro c
    apply Canvas.ext
    · funext id
      rw [hsame c (owner id)]
      exact (h.nodes_held id).shows
    · funext id
      obtain ⟨d, hd⟩ := h.edges_held id
      rw [hsame c d]
      exact hd.shows
  refine ⟨heq, htruth, ?_⟩
  intro c
  rw [htruth]
  exact h.closed

theorem HeldEdge.edit_self {e : Edit R C} {id : Text} (h : HeldEdge s c id) :
    HeldEdge { s.setClient c ((s.client c).edit e) with truth := s.truth.edit e } c id := by
  refine ⟨?_, h.steady⟩
  simp only [setClient_client_self, Client.edit, Canvas.edit, h.shows]

theorem HeldEdge.edit_other {e : Edit R C} {id : Text} (h : HeldEdge s c.other id)
    (hkept : (s.truth.edit e).edges id = s.truth.edges id) :
    HeldEdge { s.setClient c ((s.client c).edit e) with truth := s.truth.edit e } c.other id := by
  refine ⟨?_, h.steady⟩
  simp only [setClient_client_other, hkept]
  exact h.shows

theorem Inv.edit (h : Inv owner s) {e : Edit R C} (howner : owner e.node = c) :
    Inv owner { s.setClient c ((s.client c).edit e) with truth := s.truth.edit e } := by
  refine ⟨h.nodes_wf, h.edges_wf, ?_, ?_, ?_, ?_, ?_, ?_, h.closed.edit⟩
  · intro d
    rcases c.eq_or_eq_other d with rfl | rfl
    · simp only [setClient_client_self]
      exact ⟨fun items hitems => (Option.some.inj hitems).symm, nofun⟩
    · simp only [setClient_client_other]
      exact h.nodes_shown _
  · intro d
    rcases c.eq_or_eq_other d with rfl | rfl
    · simp only [setClient_client_self]
      cases hdelete : e.isDelete with
      | true =>
        simp only [Client.edit, hdelete, if_true]
        exact ⟨fun items hitems => (Option.some.inj hitems).symm, nofun⟩
      | false =>
        simp only [Client.edit, hdelete, Canvas.edit_edges_of_not_delete hdelete]
        exact h.edges_shown d
    · simp only [setClient_client_other]
      exact h.edges_shown _
  · intro d id edge hedge
    rcases c.eq_or_eq_other d with rfl | rfl
    · simp only [setClient_client_self] at hedge
      exact h.stable d id edge (Option.filter_eq_some_iff.mp hedge).1
    · simp only [setClient_client_other] at hedge
      exact h.stable _ id edge hedge
  · intro id
    have hheld := h.nodes_held id
    refine ⟨?_, hheld.steady⟩
    by_cases hid : id = e.node
    · subst hid
      rw [howner] at hheld ⊢
      simp only [setClient_client_self, Client.edit, Canvas.edit_nodes_self, hheld.shows]
    · rw [Canvas.edit_nodes_of_ne hid, ← hheld.shows]
      rcases c.eq_or_eq_other (owner id) with heq | heq <;> rw [heq]
      · simp only [setClient_client_self, Client.edit, Canvas.edit_nodes_of_ne hid]
      · simp only [setClient_client_other]
  · intro id
    cases htruth : s.truth.edges id with
    | some edge => exact ⟨c, (h.live id (htruth ▸ rfl) c).edit_self⟩
    | none =>
      obtain ⟨d, hd⟩ := h.edges_held id
      rcases c.eq_or_eq_other d with rfl | rfl
      · exact ⟨d, hd.edit_self⟩
      · refine ⟨c.other, hd.edit_other ?_⟩
        rw [Canvas.edit_edges, htruth, Option.filter_none]
  · intro id hid d
    obtain ⟨edge, hedge⟩ := Option.isSome_iff_exists.mp hid
    have htruth := (Option.filter_eq_some_iff.mp hedge).1
    have hlive := h.live id (htruth ▸ rfl)
    rcases c.eq_or_eq_other d with rfl | rfl
    · exact (hlive d).edit_self
    · exact (hlive c.other).edit_other (hedge.trans htruth.symm)

/-- Most events change neither what the clients show nor what they should. -/
structure SameCanvases (s t : Session R C) : Prop where
  client : ∀ c, (t.client c).canvas = (s.client c).canvas
  truth : t.truth = s.truth

theorem sameCanvases_setClient {client : Client R C} (h : client.canvas = (s.client c).canvas) :
    SameCanvases s (s.setClient c client) := by
  refine ⟨?_, rfl⟩
  intro d
  rcases c.eq_or_eq_other d with rfl | rfl
  · rw [setClient_client_self, h]
  · rw [setClient_client_other]

/-- Of an event that only sends or delivers, what is left to show is that it leaves steady what the
clients hold on to. -/
theorem Inv.of_sameCanvases (h : Inv owner s) (hsame : SameCanvases s t)
    (hnodes : t.nodes.Wf) (hedges : t.edges.Wf)
    (hnodesShown : ∀ c,
      Shows (s.client c).canvas.nodes (t.client c).nodesTimer (shownNodes (t.nodes.doc c)))
    (hedgesShown : ∀ c,
      Shows (s.client c).canvas.edges (t.client c).edgesTimer (shownEdges (t.edges.doc c)))
    (hnodesSteady : ∀ id, t.nodes.Steady (owner id) id)
    (hedgesSteady : ∀ id, ∃ c,
      (s.client c).canvas.edges id = s.truth.edges id ∧ t.edges.Steady c id)
    (hlive : ∀ id, (s.truth.edges id).isSome → ∀ c, t.edges.Steady c id) : Inv owner t := by
  refine ⟨hnodes, hedges, ?_, ?_, ?_, ?_, ?_, ?_, ?_⟩
  · intro c
    rw [hsame.client]
    exact hnodesShown c
  · intro c
    rw [hsame.client]
    exact hedgesShown c
  · intro c
    rw [hsame.client]
    exact h.stable c
  · intro id
    refine ⟨?_, hnodesSteady id⟩
    rw [hsame.client, hsame.truth]
    exact (h.nodes_held id).shows
  · intro id
    obtain ⟨c, hshows, hsteady⟩ := hedgesSteady id
    refine ⟨c, ?_, hsteady⟩
    rw [hsame.client, hsame.truth]
    exact hshows
  · intro id hid c
    rw [hsame.truth] at hid
    refine ⟨?_, hlive id hid c⟩
    rw [hsame.client, hsame.truth]
    exact (h.live id hid c).shows
  · rw [hsame.truth]
    exact h.closed

/-- A client changes its timers or its flags. -/
theorem Inv.setClient (h : Inv owner s) {client : Client R C}
    (hcanvas : client.canvas = (s.client c).canvas)
    (hnodes : Shows client.canvas.nodes client.nodesTimer (shownNodes (s.nodes.doc c)))
    (hedges : Shows client.canvas.edges client.edgesTimer (shownEdges (s.edges.doc c))) :
    Inv owner (s.setClient c client) := by
  refine h.of_sameCanvases (sameCanvases_setClient hcanvas) h.nodes_wf h.edges_wf ?_ ?_
    (fun id => (h.nodes_held id).steady) ?_ fun id hid d => (h.live id hid d).steady
  · intro d
    rcases c.eq_or_eq_other d with rfl | rfl
    · rw [setClient_client_self, ← hcanvas]
      exact hnodes
    · rw [setClient_client_other]
      exact h.nodes_shown _
  · intro d
    rcases c.eq_or_eq_other d with rfl | rfl
    · rw [setClient_client_self, ← hcanvas]
      exact hedges
    · rw [setClient_client_other]
      exact h.edges_shown _
  · intro id
    obtain ⟨d, hd⟩ := h.edges_held id
    exact ⟨d, hd.shows, hd.steady⟩

section Serialization

variable [EmptyCollection C]

/-- Rewriting the nodes settles what the client shows of them. -/
theorem Inv.publishNodes (h : Inv owner s) {nodes : Text → Option (Node R C)}
    (hcanvas : nodes = (s.client c).canvas.nodes) (hfresh : s.nodes.Fresh c stamp)
    (hagree : NodesAgree owner s.nodes c stamp nodes) :
    Inv owner { s.setClient c { s.client c with nodesTimer := none }.synced with
      nodes := s.nodes.publish c
        (rewrite stamp (fun id => (nodes id).map serializeNode) (s.nodes.doc c)) } := by
  have hsame : SameCanvases s
      (s.setClient c { s.client c with nodesTimer := none }.synced) := sameCanvases_setClient rfl
  refine h.of_sameCanvases ⟨hsame.client, hsame.truth⟩ (h.nodes_wf.publish hfresh) h.edges_wf ?_
    ?_ ?_ ?_ fun id hid d => (h.live id hid d).steady
  · intro d
    rcases c.eq_or_eq_other d with rfl | rfl
    · refine ⟨?_, ?_⟩
      · simp [Client.synced]
      · intro _
        funext id
        simp only [Net.publish_doc_self, shownNodes, get_rewrite hfresh.1, ← hcanvas]
        cases hnode : nodes id with
        | none => rfl
        | some node => simp [hagree.shown id node hnode]
    · simp only [setClient_client_other, Net.publish_doc_other]
      exact h.nodes_shown _
  · intro d
    rcases c.eq_or_eq_other d with rfl | rfl
    · simp only [setClient_client_self]
      exact h.edges_shown d
    · simp only [setClient_client_other]
      exact h.edges_shown _
  · intro id
    have hsteady := (h.nodes_held id).steady
    cases hwrites : (rewrite stamp (fun id => (nodes id).map serializeNode)
      (s.nodes.doc c)).writes id with
    | none => exact hsteady.publish_of_none hwrites
    | some v =>
      rcases c.eq_or_eq_other (owner id) with heq | heq <;> rw [heq] at hsteady ⊢
      · exact Net.steady_publish_self hwrites hfresh.1 (hagree.own id v hwrites heq)
      · apply hsteady.publish_other
        intro v hv
        exact hagree.others id v hv (heq ▸ c.other_ne)
  · intro id
    obtain ⟨d, hd⟩ := h.edges_held id
    exact ⟨d, hd.shows, hd.steady⟩

theorem Inv.syncNodesToYjs (h : Inv owner s)
    (hcareful : Careful owner s (.syncNodesToYjs c stamp))
    (hstep : step owner s (.syncNodesToYjs c stamp) = some t) : Inv owner t := by
  obtain ⟨nodes, htimer, hstep⟩ := Option.bind_eq_some_iff.mp hstep
  have hcanvas := (h.nodes_shown c).armed nodes htimer
  have hagree := hcareful nodes htimer
  rw [Session.syncNodesToYjs] at hstep
  dsimp only at hstep
  split at hstep
  next hflag =>
    rw [if_pos hflag] at hagree
    cases hstep
    exact h.setClient rfl ⟨nofun, fun _ => hcanvas.symm.trans hagree⟩ (h.edges_shown c)
  next hflag =>
    rw [if_neg hflag] at hagree
    obtain ⟨hfresh, hstep⟩ := Option.ite_none_right_eq_some.mp hstep
    cases hstep
    exact h.publishNodes hcanvas hfresh hagree

omit [EmptyCollection C] in
/-- Rewriting the edges settles what the client shows of them. Of an edge that is written the other
client has the same, and one that is struck out this client holds on to from now on. -/
theorem Inv.publishEdges (h : Inv owner s) {edges : Text → Option Edge}
    (hcanvas : edges = (s.client c).canvas.edges) (hfresh : s.edges.Fresh c stamp)
    (hagree : EdgesAgree s.edges c stamp edges) :
    Inv owner { s.setClient c { s.client c with edgesTimer := none }.synced with
      edges := s.edges.publish c
        (rewrite stamp (fun id => (edges id).map serializeEdge) (s.edges.doc c)) } := by
  have hsame : SameCanvases s
      (s.setClient c { s.client c with edgesTimer := none }.synced) := sameCanvases_setClient rfl
  have hkept : ∀ id edge, edges id = some edge →
      ∀ v, (rewrite stamp (fun id => (edges id).map serializeEdge) (s.edges.doc c)).writes id =
        some v → v = get (s.edges.doc c.other) id := by
    intro id edge hedge v hv
    rw [rewritten_eq_some hv, ← hagree.kept id edge hedge]
    simp only [hedge, Option.map_some]
  refine h.of_sameCanvases ⟨hsame.client, hsame.truth⟩ h.nodes_wf (h.edges_wf.publish hfresh) ?_
    ?_ (fun id => (h.nodes_held id).steady) ?_ ?_
  · intro d
    rcases c.eq_or_eq_other d with rfl | rfl
    · simp only [setClient_client_self]
      exact h.nodes_shown d
    · simp only [setClient_client_other]
      exact h.nodes_shown _
  · intro d
    rcases c.eq_or_eq_other d with rfl | rfl
    · refine ⟨?_, ?_⟩
      · simp [Client.synced]
      · intro _
        funext id
        simp only [Net.publish_doc_self, shownEdges, get_rewrite hfresh.1, ← hcanvas]
        cases hedge : edges id with
        | none => rfl
        | some edge => simp [h.stable d id edge (hcanvas ▸ hedge)]
    · simp only [setClient_client_other, Net.publish_doc_other]
      exact h.edges_shown _
  · intro id
    obtain ⟨d, hd⟩ := h.edges_held id
    cases hwrites : (rewrite stamp (fun id => (edges id).map serializeEdge)
      (s.edges.doc c)).writes id with
    | none => exact ⟨d, hd.shows, hd.steady.publish_of_none hwrites⟩
    | some v =>
      have hself := Net.steady_publish_self hwrites hfresh.1 (hagree.prevails id v hwrites)
      rcases c.eq_or_eq_other d with rfl | rfl
      · exact ⟨d, hd.shows, hself⟩
      · cases hedge : edges id with
        | some edge =>
          exact ⟨c.other, hd.shows, hd.steady.publish_other (hkept id edge hedge)⟩
        | none =>
          -- the other client has the edge no more either, so all edits have deleted it
          refine ⟨c, ?_, hself⟩
          cases htruth : s.truth.edges id with
          | none => rw [← hcanvas, hedge]
          | some edge => rw [(h.live id (htruth ▸ rfl) c).shows, htruth]
  · intro id hid d
    have hd := h.live id hid d
    obtain ⟨edge, hedge⟩ := Option.isSome_iff_exists.mp hid
    have hshown : edges id = some edge := by rw [hcanvas, (h.live id hid c).shows, hedge]
    cases hwrites : (rewrite stamp (fun id => (edges id).map serializeEdge)
      (s.edges.doc c)).writes id with
    | none => exact hd.steady.publish_of_none hwrites
    | some v =>
      rcases c.eq_or_eq_other d with rfl | rfl
      · exact Net.steady_publish_self hwrites hfresh.1 (hagree.prevails id v hwrites)
      · exact hd.steady.publish_other (hkept id edge hshown)

theorem Inv.syncEdgesToYjs (h : Inv owner s)
    (hcareful : Careful owner s (.syncEdgesToYjs c stamp))
    (hstep : step owner s (.syncEdgesToYjs c stamp) = some t) : Inv owner t := by
  obtain ⟨edges, htimer, hstep⟩ := Option.bind_eq_some_iff.mp hstep
  have hcanvas := (h.edges_shown c).armed edges htimer
  have hagree := hcareful edges htimer
  rw [Session.syncEdgesToYjs] at hstep
  dsimp only at hstep
  split at hstep
  next hflag =>
    rw [if_pos hflag] at hagree
    cases hstep
    exact h.setClient rfl (h.nodes_shown c) ⟨nofun, fun _ => hcanvas.symm.trans hagree⟩
  next hflag =>
    rw [if_neg hflag] at hagree
    obtain ⟨hfresh, hstep⟩ := Option.ite_none_right_eq_some.mp hstep
    cases hstep
    exact h.publishEdges hcanvas hfresh hagree

end Serialization

/-- What a delivery does before the observer sees it. -/
structure Received (s s' : Session R C) (c : Side) : Prop where
  client : s'.client = s.client
  truth : s'.truth = s.truth
  nodes_wf : s'.nodes.Wf
  edges_wf : s'.edges.Wf
  nodes_steady : ∀ d id, s.nodes.Steady d id → s'.nodes.Steady d id
  edges_steady : ∀ d id, s.edges.Steady d id → s'.edges.Steady d id
  nodes_get : ∀ id, s.nodes.Steady c id → get (s'.nodes.doc c) id = get (s.nodes.doc c) id
  edges_get : ∀ id, s.edges.Steady c id → get (s'.edges.doc c) id = get (s.edges.doc c) id
  nodes_other : s'.nodes.doc c.other = s.nodes.doc c.other
  edges_other : s'.edges.doc c.other = s.edges.doc c.other

theorem Inv.received_nodes (h : Inv owner s) {u : Update Text (SerializedNode R C)}
    {rest : List (Update Text (SerializedNode R C))} (hinbox : s.nodes.inbox c = u :: rest) :
    Received s { s with nodes := s.nodes.receive c u rest } c where
  client := rfl
  truth := rfl
  nodes_wf := h.nodes_wf.receive hinbox
  edges_wf := h.edges_wf
  nodes_steady _ _ hsteady := hsteady.receive hinbox
  edges_steady _ _ hsteady := hsteady
  nodes_get _ hsteady := hsteady.get_receive hinbox
  edges_get _ _ := rfl
  nodes_other := Net.receive_doc_other
  edges_other := rfl

theorem Inv.received_edges (h : Inv owner s) {u : Update Text SerializedEdge}
    {rest : List (Update Text SerializedEdge)} (hinbox : s.edges.inbox c = u :: rest) :
    Received s { s with edges := s.edges.receive c u rest } c where
  client := rfl
  truth := rfl
  nodes_wf := h.nodes_wf
  edges_wf := h.edges_wf.receive hinbox
  nodes_steady _ _ hsteady := hsteady
  edges_steady _ _ hsteady := hsteady.receive hinbox
  nodes_get _ _ := rfl
  edges_get _ hsteady := hsteady.get_receive hinbox
  nodes_other := rfl
  edges_other := Net.receive_doc_other

/-- A delivery that the observer ignores and that brings nothing new. -/
theorem Inv.of_received (h : Inv owner s) {s' : Session R C} (hr : Received s s' c)
    (hnodes : shownNodes (s'.nodes.doc c) = shownNodes (s.nodes.doc c))
    (hedges : shownEdges (s'.edges.doc c) = shownEdges (s.edges.doc c)) : Inv owner s' := by
  have hsame : SameCanvases s s' := ⟨fun d => by rw [hr.client], hr.truth⟩
  refine h.of_sameCanvases hsame hr.nodes_wf hr.edges_wf ?_ ?_
    (fun id => hr.nodes_steady _ _ (h.nodes_held id).steady) ?_
    fun id hid d => hr.edges_steady _ _ (h.live id hid d).steady
  · intro d
    rw [hr.client]
    rcases c.eq_or_eq_other d with rfl | rfl
    · rw [hnodes]
      exact h.nodes_shown d
    · rw [hr.nodes_other]
      exact h.nodes_shown _
  · intro d
    rw [hr.client]
    rcases c.eq_or_eq_other d with rfl | rfl
    · rw [hedges]
      exact h.edges_shown d
    · rw [hr.edges_other]
      exact h.edges_shown _
  · intro id
    obtain ⟨d, hd⟩ := h.edges_held id
    exact ⟨d, hd.shows, hr.edges_steady _ _ hd.steady⟩

/-- A delivery to a client that showed what it had in the documents. -/
theorem Inv.refreshed (h : Inv owner s) {s' : Session R C} (hr : Received s s' c)
    (hflag : (s'.client c).localSyncing = false)
    (hcanvas : (s.client c).canvas = ⟨shownNodes (s.nodes.doc c), shownEdges (s.edges.doc c)⟩) :
    Inv owner (s'.observe c) := by
  have hclient : (s'.observe c).client c = { s'.client c with
      canvas := ⟨shownNodes (s'.nodes.doc c), shownEdges (s'.edges.doc c)⟩
      nodesTimer := some (shownNodes (s'.nodes.doc c))
      edgesTimer := some (shownEdges (s'.edges.doc c))
      yjsSyncing := true
      yjsResets := (s'.client c).yjsResets + 1 } := by
    simp [Session.observe, Client.observe, hflag]
  have hother : (s'.observe c).client c.other = s.client c.other := by
    rw [Session.observe, setClient_client_other, hr.client]
  have hnodes : ∀ d id, s.nodes.Steady d id →
      ((s'.observe c).client d).canvas.nodes id = (s.client d).canvas.nodes id := by
    intro d id hsteady
    rcases c.eq_or_eq_other d with rfl | rfl
    · simp only [hclient, hcanvas, shownNodes, hr.nodes_get id hsteady]
    · rw [hother]
  have hedges : ∀ d id, s.edges.Steady d id →
      ((s'.observe c).client d).canvas.edges id = (s.client d).canvas.edges id := by
    intro d id hsteady
    rcases c.eq_or_eq_other d with rfl | rfl
    · simp only [hclient, hcanvas, shownEdges, hr.edges_get id hsteady]
    · rw [hother]
  have hheld : ∀ d id, HeldEdge s d id → HeldEdge (s'.observe c) d id := fun d id hd =>
    ⟨(hedges d id hd.steady).trans (hd.shows.trans (congrFun (congrArg _ hr.truth.symm) id)),
      hr.edges_steady d id hd.steady⟩
  refine ⟨hr.nodes_wf, hr.edges_wf, ?_, ?_, ?_, ?_, ?_, ?_, ?_⟩
  · intro d
    rcases c.eq_or_eq_other d with rfl | rfl
    · rw [hclient]
      exact ⟨fun items hitems => (Option.some.inj hitems).symm, nofun⟩
    · rw [hother]
      exact hr.nodes_other ▸ h.nodes_shown c.other
  · intro d
    rcases c.eq_or_eq_other d with rfl | rfl
    · rw [hclient]
      exact ⟨fun items hitems => (Option.some.inj hitems).symm, nofun⟩
    · rw [hother]
      exact hr.edges_other ▸ h.edges_shown c.other
  · intro d id edge hedge
    rcases c.eq_or_eq_other d with rfl | rfl
    · rw [hclient] at hedge
      obtain ⟨serialized, -, rfl⟩ := Option.map_eq_some_iff.mp hedge
      rfl
    · rw [hother] at hedge
      exact h.stable _ id edge hedge
  · intro id
    have hid := h.nodes_held id
    refine ⟨?_, hr.nodes_steady _ id hid.steady⟩
    rw [hnodes _ id hid.steady, hid.shows]
    exact congrFun (congrArg _ hr.truth.symm) id
  · intro id
    obtain ⟨d, hd⟩ := h.edges_held id
    exact ⟨d, hheld d id hd⟩
  · intro id hid d
    have hid : (s.truth.edges id).isSome := hr.truth ▸ hid
    exact hheld d id (h.live id hid d)
  · exact hr.truth.symm ▸ h.closed

theorem shownNodes_of_idle {u : Update Text (SerializedNode R C)}
    {rest : List (Update Text (SerializedNode R C))} (hinbox : s.nodes.inbox c = u :: rest)
    (h : Idle s.nodes c) :
    shownNodes ((s.nodes.receive c u rest).doc c) = shownNodes (s.nodes.doc c) := by
  funext id
  rw [shownNodes, Net.receive_doc_self, h u (by rw [hinbox]; rfl), shownNodes]

theorem shownEdges_of_idle {u : Update Text SerializedEdge}
    {rest : List (Update Text SerializedEdge)} (hinbox : s.edges.inbox c = u :: rest)
    (h : Idle s.edges c) :
    shownEdges ((s.edges.receive c u rest).doc c) = shownEdges (s.edges.doc c) := by
  funext id
  rw [shownEdges, Net.receive_doc_self, h u (by rw [hinbox]; rfl), shownEdges]

theorem Inv.observe_ignored (h : Inv owner s) (hflag : (s.client c).localSyncing = true) :
    Inv owner (s.observe c) := by
  rw [Session.observe, Client.observe, if_pos hflag, Session.setClient, Function.update_eq_self]
  exact h

section Serialization

variable [EmptyCollection C]

theorem Inv.deliver (h : Inv owner s) {map : SharedMap} (hcareful : Careful owner s (.deliver c map))
    (hstep : step owner s (.deliver c map) = some t) : Inv owner t := by
  cases map with
  | nodes =>
    cases hinbox : s.nodes.inbox c with
    | nil => simp [step, Session.deliver, hinbox] at hstep
    | cons u rest =>
      simp only [step, Session.deliver, hinbox, Option.some.injEq] at hstep
      have hr := h.received_nodes hinbox
      cases hflag : (s.client c).localSyncing with
      | true =>
        simp only [Careful, hflag, if_true] at hcareful
        have hsame := h.of_received hr (shownNodes_of_idle hinbox hcareful) rfl
        exact hstep ▸ hsame.observe_ignored hflag
      | false =>
        simp only [Careful, hflag, Bool.false_eq_true, if_false] at hcareful
        rw [← hstep]
        exact h.refreshed hr hflag hcareful
  | edges =>
    cases hinbox : s.edges.inbox c with
    | nil => simp [step, Session.deliver, hinbox] at hstep
    | cons u rest =>
      simp only [step, Session.deliver, hinbox, Option.some.injEq] at hstep
      have hr := h.received_edges hinbox
      cases hflag : (s.client c).localSyncing with
      | true =>
        simp only [Careful, hflag, if_true] at hcareful
        have hsame := h.of_received hr rfl (shownEdges_of_idle hinbox hcareful)
        exact hstep ▸ hsame.observe_ignored hflag
      | false =>
        simp only [Careful, hflag, Bool.false_eq_true, if_false] at hcareful
        rw [← hstep]
        exact h.refreshed hr hflag hcareful

theorem Inv.step {e : Event R C} (h : Inv owner s) (hcareful : Careful owner s e)
    (hstep : step owner s e = some t) : Inv owner t := by
  cases e with
  | edit c e =>
    obtain ⟨⟨howner, -⟩, hstep⟩ := Option.ite_none_right_eq_some.mp hstep
    cases hstep
    exact h.edit howner
  | syncNodesToYjs c stamp => exact h.syncNodesToYjs hcareful hstep
  | syncEdgesToYjs c stamp => exact h.syncEdgesToYjs hcareful hstep
  | deliver c map => exact h.deliver hcareful hstep
  | resetLocal c =>
    obtain ⟨-, hstep⟩ := Option.ite_none_right_eq_some.mp hstep
    cases hstep
    exact h.setClient rfl (h.nodes_shown c) (h.edges_shown c)
  | resetYjs c =>
    obtain ⟨-, hstep⟩ := Option.ite_none_right_eq_some.mp hstep
    cases hstep
    exact h.setClient rfl (h.nodes_shown c) (h.edges_shown c)

theorem inv_start (board : Board R C) : Inv owner (start board) := by
  have hwf : ∀ {K V : Type} (u : Update K V),
      Net.Wf { doc := fun _ => [u], inbox := fun _ => [] } := by
    intro K V u
    refine ⟨fun w => Iff.rfl, ?_⟩
    intro w hw w' hw' _
    exact (List.mem_singleton.mp hw).trans (List.mem_singleton.mp hw').symm
  refine ⟨hwf _, hwf _, ?_, ?_, fun _ => board.edges_stable, ?_, ?_, ?_, board.closed⟩
  · intro c
    refine ⟨nofun, fun _ => ?_⟩
    funext id
    simp only [start, shownNodes]
    rw [← List.nil_append [_], get_rewrite (List.forall_mem_nil _)]
    cases hnode : board.nodes id with
    | none => rfl
    | some node => simp [board.nodes_stable id node hnode]
  · intro c
    refine ⟨nofun, fun _ => ?_⟩
    funext id
    simp only [start, shownEdges]
    rw [← List.nil_append [_], get_rewrite (List.forall_mem_nil _)]
    cases hedge : board.edges id with
    | none => rfl
    | some edge => simp [board.edges_stable id edge hedge]
  · exact fun id => ⟨rfl, nofun⟩
  · exact fun id => ⟨.left, rfl, nofun⟩
  · exact fun id _ c => ⟨rfl, nofun⟩

/-- While both clients take turns, no edit is lost. -/
theorem edits_survive (board : Board R C) {events : List (Event R C)}
    (h : Along (step owner) (Careful owner) (start board) events) :
    Always (step owner) Merged (start board) events := by
  have hinv : Always (step owner) (Inv owner) (start board) events :=
    always_of_along (fun _ _ _ hs hcareful hstep => hs.step hcareful hstep) (inv_start board) h
  intro earlier later hsplit s hs
  exact (hinv earlier later hsplit s hs).merged

end Serialization

end Invariant

/-! ### Two nodes -/

def filterNode (id : Text) : SerializedNode Nat (List Nat) where
  id
  type := "stepNode".toList
  position := (0, 0)
  data :=
    { type := "filter".toList
      name := id
      config := []
      inferredSchema := none
      validationError := none }
  selected := none
  width := none
  height := none

/-- One node of each client, and no edge. -/
def twoNodes : Board Nat (List Nat) where
  nodes id := if id = ['a'] ∨ id = ['b'] then some (deserializeNode (filterNode id)) else none
  edges _ := none
  nodes_stable := by
    intro id node h
    obtain ⟨hid, h⟩ := Option.ite_none_right_eq_some.mp h
    cases h
    rcases hid with rfl | rfl <;> rfl
  edges_stable := nofun
  closed := nofun

def ownerOfTwo (id : Text) : Side := if id = ['a'] then .left else .right

theorem nodesAgree_configure :
    NodesAgree ownerOfTwo (start twoNodes).nodes .left 1
      (twoNodes.edit (.configure ['a'] [1])).nodes where
  shown id node h := by
    by_cases hid : id = ['a']
    · subst hid
      cases h
      rfl
    · rw [Canvas.edit_nodes_of_ne hid] at h
      exact twoNodes.nodes_stable id node h
  others id v h howner := by
    have hid : id ≠ ['a'] := by
      rintro rfl
      exact howner rfl
    rw [rewritten_eq_some h, Canvas.edit_nodes_of_ne hid, start]
    dsimp only
    rw [← List.nil_append [_], get_rewrite (List.forall_mem_nil _)]
  own id v _ _ := nofun

/-- An edit of the left client reaches the right one. -/
theorem edits_survive_configure :
    Always (step ownerOfTwo) Merged (start twoNodes)
      [.edit .left (.configure ['a'] [1]), .syncNodesToYjs .left 1, .resetLocal .left,
        .deliver .right .nodes] := by
  have hstart : Inv ownerOfTwo (start twoNodes) := inv_start twoNodes
  apply edits_survive
  refine ⟨trivial, ?_⟩
  rintro _ ⟨⟩
  refine ⟨?_, ?_⟩
  · rintro nodes ⟨⟩
    rw [if_neg (by decide)]
    exact nodesAgree_configure
  rintro _ ⟨⟩
  refine ⟨trivial, ?_⟩
  rintro _ ⟨⟩
  refine ⟨?_, fun _ _ => trivial⟩
  exact Canvas.ext ((hstart.nodes_shown .right).idle rfl) ((hstart.edges_shown .right).idle rfl)

/-- While the left client has an edit that it has not sent, an update of the right one arrives. -/
def overwriting : List (Event Nat (List Nat)) :=
  [.edit .left (.configure ['a'] [1]), .edit .right (.configure ['b'] [2]),
    .syncNodesToYjs .right 1, .resetLocal .right, .deliver .left .nodes]

def overwritten : Session Nat (List Nat) :=
  (run (step ownerOfTwo) (start twoNodes) overwriting).getD (start twoNodes)

theorem run_overwriting :
    run (step ownerOfTwo) (start twoNodes) overwriting = some overwritten := rfl

theorem settled_overwritten : Settled overwritten := by
  constructor
  · intro c
    cases c <;> rfl
  · intro c
    cases c <;> rfl
  · intro c nodes hnodes
    cases c <;> cases hnodes
    rfl
  · intro c edges hedges
    cases c <;> cases hedges
    rfl

theorem unsent_edit_lost : ¬ ∀ events, Always (step ownerOfTwo) Merged (start twoNodes) events := by
  intro h
  have hmerged := h overwriting overwriting [] (List.append_nil _).symm _ run_overwriting
  have hleft := (hmerged settled_overwritten).2.1 .left
  have hnode := congrArg (fun canvas : Canvas Nat (List Nat) => canvas.nodes ['a']) hleft
  revert hnode
  decide

end PipelineIQ.Frontend.Collaboration
