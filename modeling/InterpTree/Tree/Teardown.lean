import InterpTree.Tree.Create

/-!
Teardown of a node and all below it, children first. A child that was handed over to the host
survives its parent and goes by the path of a shared link from then on, if it has one. A worker of
a node is joined before the registries of the node are dropped, unless the teardown is the doing of
the worker itself.
-/

namespace InterpTree

namespace World

/-- Removes the shared links to a node. -/
def unlinkShared (id : NodeId) (w : World) : World :=
  match w.node? id with
  | none => w
  | some n =>
    let w := w.modifyNode id fun n => { n with sharedLinks := [] }
    n.sharedLinks.foldl
      (fun w ref =>
        if (w.attached? ref.holder).isSome then w.modifyNode ref.holder (Node.unlink ref.name id)
        else w)
      w

/-- Moves a node off a holder that goes away, onto the first of its shared links whose holder
lives. -/
def rehome (gone id : NodeId) (w : World) : World :=
  match w.node? id with
  | none => w
  | some n =>
    let kept := n.sharedLinks.filter fun ref => ref.holder ≠ gone
    let w := w.modifyNode id fun n => { n with sharedLinks := kept }
    if n.home ≠ gone then w
    else
      let places := kept.filterMap fun ref =>
        (w.live? ref.holder).map fun holder => (holder.id, joinPath holder.path ref.name)
      match places with
      | [] => w
      | (home, path) :: _ =>
        (w.modifyNode id fun n => { n with home, path }).logNode .debug id
          "shared interpreter rehomed" [field "reachable" path]

/-- The record that a service loop on a worker leaves behind. -/
def logServiceEnd (id : NodeId) (report : ServiceReport) (w : World) : World :=
  w.logNode .debug id "dedicated service loop finished"
    [field "serviced" (Text.ofNat report.serviced), field "errors" (Text.ofNat report.errors)]

/-- The record of work that failed and that nobody handles. -/
def logUnhandled (id : NodeId) (work : Text) (f : Fault) (w : World) : World :=
  w.logNode .warning id "background work failed" [field "error" f.text, field "work" work]

/-- The record of work that was given up. -/
def logCanceledWork (id : NodeId) (work : Text) (w : World) : World :=
  w.logNode .debug id "work item canceled" [field "work" work]

/-- A service loop that slept while its node was deleted gives up. -/
def abandonJob (id : NodeId) (work : Text) (job : ServiceJob) (w : World) : World :=
  let w :=
    if job.options.noCancel then
      w.modifyNode id fun n => { n with cancel := (n.cancel.reset true).2 }
    else w
  (w.logServiceEnd id job.report).logCanceledWork id work

/-- A service loop that starts after its node was deleted finds no node to serve. -/
def refuseJob (id : NodeId) (w : World) (item : Text × ServiceJob) : World :=
  match w.node? id with
  | none => w
  | some n => (w.logServiceEnd id {}).logUnhandled id item.1 (.noInterpreter n.path)

/-- Runs what a closed worker of a deleted node has left. -/
def joinWorker (id : NodeId) (worker : Worker ServiceJob) (w : World) : World :=
  let w :=
    match worker.running with
    | none => w
    | some (work, job) => w.abandonJob id work job
  worker.queue.foldl (refuseJob id) w

/-- Releases a node that is not yet released. `worker` is the node on whose worker the caller runs,
if it runs on one. -/
def release (worker : Option NodeId) (id : NodeId) (w : World) : World :=
  match w.node? id with
  | none => w
  | some n =>
    if n.released then w
    else
      let w := (w.modifyNode id fun n => { n with released := true }).stopAll id
      let w := w.modifyNode id fun n => { n with worker := none }
      match n.worker with
      | none => w.drop id
      | some loop =>
        if worker = some id || n.busy then
          w.modifyNode id fun n => { n with retiring := some loop.close }
        else (w.joinWorker id loop).drop id

/-- Tears a node down that is marked dead; `fuel` bounds the depth of the tree. -/
def teardownNode (worker : Option NodeId) : Nat → NodeId → World → World
  | 0, _, w => w
  | fuel + 1, id, w =>
    match w.node? id with
    | none => w
    | some n =>
      let w := (n.links.filter fun l => !l.shared).foldl
        (fun w l =>
          match w.attached? l.target with
          | none => w
          | some child =>
            if child.shared then w.rehome id l.target
            else
              let w := w.modifyNode l.target fun n => { n with dead := true }
              teardownNode worker fuel l.target (w.unlinkShared l.target))
        w
      let w := (n.links.filter Link.shared).foldl
        (fun w l => if (w.attached? l.target).isSome then w.rehome id l.target else w) w
      (w.release worker id).modifyNode id fun n => { n with attached := false }

/-- Tears down a node with all below it. Children are younger than their parents, so no tree is
deeper than it has nodes. -/
def teardown (worker : Option NodeId) (id : NodeId) (w : World) : World :=
  w.teardownNode worker (w.nodes.size + 1) id

/-- Tears down every node, the root and those that were handed over to the host included. -/
def close (w : World) : World :=
  if w.closed then w
  else
    let doom (w : World) (id : NodeId) : World :=
      (w.modifyNode id fun n => { n with dead := true }).teardown none id
    let w := doom { w with closed := true } root
    ((w.nodes.filter Node.attached).map Node.id).foldl doom w

end World

namespace Op

/-- Deletes the node at a path with all below it. A shared link is only removed. `worker` is the
node on whose worker the caller runs, if it runs on one. -/
def delete (worker : Option NodeId) (caller : NodeId) (path : Text) : Op Unit := do
  let target ← node (← resolve caller path)
  require (!target.isRoot) (.of .invalidArgument "cannot delete the root interpreter")
  require (!(← get).isWithin caller target.id)
    (.of .invalidArgument
      ("cannot delete interpreter " ++ Text.quoted path ++ " from within itself"))
  let (parentPath, name) := splitPath path
  let parent ← node (← resolve caller parentPath)
  match parent.link? name with
  | none => throw (.noInterpreter path)
  | some link =>
    require (link.target = target.id) (.noInterpreter path)
    require (link.shared || !target.dead) (.noInterpreter path)
    change (World.modifyNode parent.id (Node.unlink name target.id))
    if link.shared then
      change (World.modifyNode target.id fun n =>
        { n with sharedLinks := n.sharedLinks.erase ⟨parent.id, name⟩ })
    else
      change (World.modifyNode target.id fun n => { n with dead := true })
      change (World.unlinkShared target.id)
      change (World.teardown worker target.id)
      change (World.logNode .debug target.id "interpreter deleted" [])

end Op

end InterpTree
