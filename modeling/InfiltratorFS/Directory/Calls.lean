import InfiltratorFS.Directory.Operations

namespace InfiltratorFS.Directory

open Prog Function

section Reading

variable {s₀ : Live} {g : Graph} {id : ObjectId}

theorem triple_request_near : Maintains (Near s₀ g) request :=
  (triple_request fun _ => True).mono (fun _ h => ⟨h, trivial⟩) (fun _ _ h => h.1) fun _ _ h => h.1

theorem triple_call_near : Maintains (Near s₀ g) call := triple_call.error (fun _ _ h => h.1)

theorem triple_indexFind :
    Triple (Near s₀ g) (indexFind id) (fun node s => g id = some node ∧ Near s₀ g s) (fun _ => Near s₀ g) := by
  apply triple_call_near.seq
  apply Triple.look
  intro s hs
  rw [hs.objects]
  rcases hnode : g id with _ | node
  · exact .fail fun t ht => ht
  · exact .pure fun t ht => ⟨rfl, ht⟩

theorem view_of_directory {node : Node} {body : DirectoryBody} (hnode : g id = some node) (hbody : node.object = .directory body) :
    g.view id = some body.entries := by
  rw [view_apply, hnode]
  obtain ⟨parent, object⟩ := node
  obtain rfl : object = .directory body := hbody
  rfl

theorem triple_readDirectory :
    Triple (Near s₀ g) (readDirectory id)
      (fun found s => g.view id = some found.2.entries ∧ Near s₀ g s) (fun _ => Near s₀ g) := by
  apply triple_indexFind.bind_and
  intro node hnode
  rcases hobject : node.object with body | links | _
  · exact .pure fun t ht => ⟨view_of_directory hnode hobject, ht⟩
  · exact .fail fun t ht => ht
  · exact .fail fun t ht => ht

theorem triple_lookup_near {body : DirectoryBody} (hid : g.view id = some body.entries) (name : Name) (wantEntry : Bool) :
    Maintains (Near s₀ g) (dirLookupVolume id body name wantEntry) :=
  (triple_dirLookupVolume hid wantEntry).mono (fun _ h => h) (fun _ _ h => h.1) (fun _ _ h => h.1)

variable (path : List Name)

theorem triple_lookupFrom : ∀ current, Maintains (Near s₀ g) (lookupFrom path current) := by
  induction path with
  | nil =>
    intro current
    exact .pure fun t ht => ht
  | cons component rest ih =>
    intro current
    apply Triple.look
    intro s hs
    apply Triple.check
    apply Triple.check
    apply triple_indexFind.bind_and
    intro node hnode
    rcases hobject : node.object with body | links | _
    · apply Triple.branch
      · exact ih current
      · apply Triple.branch
        · rcases node.parentId with _ | parent
          · exact ih s.rootId
          · apply triple_indexFind.bind_and
            intro up _
            apply Triple.check
            exact ih parent
        · apply (triple_lookup_near (view_of_directory hnode hobject) component true).bind
          intro found
          apply triple_indexFind.bind_and
          intro child _
          apply Triple.check
          exact ih found.1
    · exact .fail fun t ht => ht
    · exact .fail fun t ht => ht

theorem triple_lookupPath : Maintains (Near s₀ g) (lookupPath path) :=
  Triple.look fun s _ => triple_lookupFrom path s.rootId

theorem triple_splitParent : Maintains (Near s₀ g) (splitParent path) := by
  apply Triple.look
  intro s hs
  rcases hlast : path.getLast? with _ | name
  · exact .fail fun t ht => ht
  · apply Triple.check
    apply Triple.check
    apply (triple_lookupPath path.dropLast).bind
    intro parent
    apply triple_indexFind.bind_and
    intro node _
    apply Triple.check
    exact .pure fun t ht => ht

theorem triple_idIsAncestor (ancestor : ObjectId) (fuel : Nat) :
    ∀ current, Maintains (Near s₀ g) (idIsAncestor ancestor fuel current) := by
  induction fuel with
  | zero =>
    intro current
    exact .fail fun t ht => ht
  | succ fuel ih =>
    intro current
    apply Triple.look
    intro s hs
    apply Triple.branch
    · exact .pure fun t ht => ht
    · apply Triple.branch
      · exact .pure fun t ht => ht
      · apply triple_indexFind.bind_and
        intro node _
        rcases node.parentId with _ | parent
        · exact .pure fun t ht => ht
        · exact ih parent

end Reading

section Writing

variable {s₀ : Live} {g : Graph} {id : ObjectId} {E : Status → Live → Prop}

def Changed (s₀ : Live) (g : Graph) (id : ObjectId) (s : Live) : Prop :=
  ∃ g', ((∀ other, other ≠ id → g' other = g other) ∧ g.view id ≠ none) ∧ Near s₀ g' s

def Kept (s₀ : Live) (s : Live) : Prop := ∃ g, Near s₀ g s

theorem triple_writeDirectory {found : Node × DirectoryBody} {change : LiveM DirectoryBody}
    (hfound : g.view id = some found.2.entries)
    (h : Triple (Near s₀ g) change (fun body => Staged s₀ g (update g.view id (some body.entries))) fun _ _ => True) :
    Leads (Near s₀ g) (do
        let body ← change
        setNode id (some ⟨found.1.parentId, .directory body⟩)
        call) (Changed s₀ g id) := by
  apply h.bind
  intro body
  apply Staged.setNode.seq
  apply triple_call_any.post
  intro _ s hs
  refine ⟨_, ⟨fun other hother => update_of_ne hother _ _, ?_⟩, hs⟩
  rw [hfound]
  exact Option.some_ne_none _

theorem triple_addName (entry : Dirent) : Leads (Near s₀ g) (addName id entry) (Changed s₀ g id) := by
  apply triple_readDirectory.any.bind_and
  intro found hfound
  exact triple_writeDirectory hfound (triple_dirAddVolume hfound)

theorem triple_removeName (name : Name) : Leads (Near s₀ g) (removeName id name) (Changed s₀ g id) := by
  apply triple_readDirectory.any.bind_and
  intro found hfound
  exact triple_writeDirectory hfound (triple_dirRemoveVolume hfound)

theorem nodeView_freshObject {s : Live} {parent : Option ObjectId} {type : ObjectType} {es : List Dirent}
    (h : nodeView (some ⟨parent, freshObject s type⟩) = some es) : es = [] := by
  cases type with
  | directory =>
    unfold freshObject nodeView at h
    simp only [Option.some.injEq] at h
    rw [← h]
    split_ifs <;> rfl
  | file => cases h
  | symlink => cases h

theorem triple_createObject (path : List Name) (type : ObjectType) : Leads (Near s₀ g) (createObject path type) (Kept s₀) := by
  apply Triple.look
  intro s hs
  apply Triple.require
  intro _
  apply (triple_splitParent path).any.bind
  intro target
  apply triple_readDirectory.any.bind_and
  intro parent hparent
  apply (triple_unlessFound (triple_dirLookupVolume hparent false)).bind_and
  intro _ _
  apply triple_request_near.any.bind
  intro answer
  apply Triple.look
  intro t ht
  apply Triple.require
  intro hfresh
  rw [ht.objects, not_or, Bool.not_eq_true, Option.isSome_eq_false_iff, Option.isNone_iff_eq_none] at hfresh
  apply (triple_setNode_empty _ fun es => nodeView_freshObject).bind
  · intro _
    apply (triple_addName _).post
    rintro _ u ⟨g', _, hu⟩
    exact ⟨g', hu⟩
  · intro es hes
    rw [view_apply, hfresh.1] at hes
    cases hes

theorem triple_checkRemovable (node : Node) :
    Triple (Near s₀ g) (checkRemovable node)
      (fun _ s => (∀ es, nodeView (some node) = some es → es = []) ∧ Near s₀ g s) (fun _ _ => True) := by
  obtain ⟨parent, object⟩ := node
  apply Triple.look
  intro s hs
  cases object with
  | directory body =>
    apply Triple.require
    intro hempty
    apply triple_call_any.post
    intro _ t ht
    refine ⟨fun es hes => ?_, ht⟩
    cases hes
    exact not_not.mp hempty
  | file links =>
    apply Triple.require
    intro _
    exact triple_call_any.post fun _ t ht => ⟨fun es hes => (by cases hes), ht⟩
  | symlink => exact triple_call_any.post fun _ t ht => ⟨fun es hes => (by cases hes), ht⟩

theorem triple_dropObject (node : Node) (hold : ∀ es, g.view id = some es → es = []) :
    Triple (Near s₀ g) (dropObject id node) (fun _ s => ∃ new : Option Node, (∀ es, nodeView new = some es → es = []) ∧
      Near s₀ (update g id new) s) (fun _ _ => True) := by
  have hdrop : ∀ new : Option Node, nodeView new = none →
      Triple (Near s₀ g) (do setNode id new; call) (fun _ s => ∃ new : Option Node, (∀ es, nodeView new = some es → es = []) ∧
        Near s₀ (update g id new) s) (fun _ _ => True) := by
    intro new hnew
    have hempty : ∀ es, nodeView new = some es → es = [] := by
      intro es hes
      rw [hnew] at hes
      cases hes
    apply (triple_setNode_empty hold hempty).seq
    exact triple_call_any.post fun _ t ht => ⟨new, hempty, ht⟩
  obtain ⟨parent, object⟩ := node
  cases object with
  | directory body => exact hdrop none rfl
  | file links =>
    apply Triple.branch
    · exact hdrop _ rfl
    · exact hdrop none rfl
  | symlink => exact hdrop none rfl

theorem triple_destroyReplaced {node : Node} (hnode : g.view id = nodeView (some node)) :
    Leads (Near s₀ g) (destroyReplaced id node) (Kept s₀) := by
  apply (triple_checkRemovable node).bind_and
  intro _ hempty
  apply (triple_dropObject node fun es hes => hempty es (hnode ▸ hes)).post
  rintro _ s ⟨new, _, hs⟩
  exact ⟨_, hs⟩

theorem triple_removeObject (path : List Name) (wantDirectory : Bool) :
    Leads (Near s₀ g) (removeObject path wantDirectory) (Kept s₀) := by
  apply (triple_splitParent path).any.bind
  intro target
  apply triple_readDirectory.any.bind_and
  intro parent hparent
  apply (triple_dirLookupVolume hparent true).any.bind
  intro found
  apply Triple.pre (P := fun s => Bound s₀.casefold parent.2.entries target.2 found ∧ Near s₀ g s) _ fun s hs => ⟨hs.2, hs.1⟩
  apply Triple.of_and
  intro hbound
  apply triple_indexFind.any.bind_and
  intro child hchild
  apply Triple.require
  intro _
  apply Triple.require
  intro _
  apply (triple_checkRemovable child).bind_and
  intro _ hempty
  apply (triple_removeName target.2).seq
  apply Triple.of_exists
  intro g'
  apply Triple.of_and
  rintro ⟨hothers, _⟩
  have hview : ∀ es, g'.view found.1 = some es → es = [] := by
    intro es hes
    by_cases hsame : found.1 = target.1
    · -- the directory that holds the name is not empty, so it is not the child
      obtain ⟨e, he, _⟩ := hbound
      rw [← hsame, view_apply, hchild] at hparent
      rw [hempty _ hparent] at he
      cases he
    · rw [view_apply, hothers _ hsame, hchild] at hes
      exact hempty es hes
  apply (triple_dropObject child hview).post
  rintro _ s ⟨new, _, hs⟩
  exact ⟨_, hs⟩

theorem triple_kept {α : Type} {x : LiveM α} {Q : α → Live → Prop}
    (h : ∀ g, Triple (Near s₀ g) x Q E) : Triple (Kept s₀) x Q E := Triple.of_exists h

theorem triple_addName_kept (entry : Dirent) : Leads (Kept s₀) (addName id entry) (Kept s₀) :=
  triple_kept fun _ => (triple_addName entry).post fun _ _ ⟨g', _, hs⟩ => ⟨g', hs⟩

theorem triple_removeName_kept (name : Name) : Leads (Kept s₀) (removeName id name) (Kept s₀) :=
  triple_kept fun _ => (triple_removeName name).post fun _ _ ⟨g', _, hs⟩ => ⟨g', hs⟩

theorem triple_moveName (oldParent newParent : ObjectId) (oldName newName : Name) (source : ObjectId × ObjectType) :
    Leads (Kept s₀) (moveName oldParent newParent oldName newName source) (Kept s₀) := by
  apply Triple.branch
  · exact (triple_removeName_kept oldName).bind fun _ => triple_addName_kept _
  · exact (triple_addName_kept _).bind fun _ => triple_removeName_kept oldName

section

variable (source : ObjectId × ObjectType)

include source

theorem triple_reparent (newParent : ObjectId) (sameParent : Bool) :
    Leads (Kept s₀) (reparent source newParent sameParent) (Kept s₀) := by
  apply triple_kept
  intro g
  have hcall : ∀ g', Leads (Near s₀ g') call (Kept s₀) :=
    fun g' => triple_call_any.post fun _ s hs => ⟨g', hs⟩
  apply triple_indexFind.any.bind_and
  intro node hnode
  apply Triple.look
  intro s hs
  apply Triple.branch
  · exact hcall g
  · apply (triple_setNode_same _).bind fun _ => hcall _
    rw [view_apply, hnode]
    obtain ⟨parent, object⟩ := node
    cases object <;> rfl

theorem triple_checkTarget (replace : Bool) (target : ObjectId × ObjectType) :
    Triple (Near s₀ g) (checkTarget source replace target) (fun node s => g target.1 = some node ∧ Near s₀ g s)
      (fun _ _ => True) := by
  apply Triple.require
  intro _
  apply triple_indexFind.any.bind_and
  intro node hnode
  apply Triple.require
  intro _
  apply Triple.require
  intro _
  apply Triple.require
  intro _
  exact Triple.pure fun s hs => ⟨hnode, hs⟩

theorem triple_findTarget (replace : Bool) (found : Option (ObjectId × ObjectType)) :
    Triple (Near s₀ g) (findTarget source replace found)
      (fun target s => (∀ id node, target = some (id, node) → g id = some node) ∧ Near s₀ g s) (fun _ _ => True) := by
  rcases found with _ | target
  · exact .pure fun s hs => ⟨fun id node h => (by cases h), hs⟩
  · apply (triple_checkTarget source replace target).bind_and
    intro node hnode
    apply Triple.pure
    intro s hs
    refine ⟨fun id node' h => ?_, hs⟩
    cases h
    exact hnode

theorem triple_movesBelow (newParent : ObjectId) : Leads (Near s₀ g) (movesBelow source newParent) (Near s₀ g) := by
  apply Triple.branch
  · exact (triple_idIsAncestor source.1 1024 newParent).any
  · exact .done

end

theorem triple_renameNames (old new : ObjectId × Name) (source : ObjectId × ObjectType) (target : Option (ObjectId × Node))
    (htarget : ∀ id node, target = some (id, node) → g id = some node) :
    Leads (Near s₀ g) (renameNames old new source target) (Kept s₀) := by
  have hrest : Leads (Kept s₀) (do moveName old.1 new.1 old.2 new.2 source; reparent source new.1 (old.1 == new.1)) (Kept s₀) := by
    apply Triple.bind (triple_moveName old.1 new.1 old.2 new.2 source)
    intro _
    exact triple_reparent source new.1 (old.1 == new.1)
  rcases target with _ | ⟨id, node⟩
  · exact hrest.pre fun s hs => ⟨g, hs⟩
  · apply (triple_destroyReplaced (by rw [view_apply, htarget id node rfl])).seq
    exact (triple_removeName_kept new.2).bind fun _ => hrest

theorem triple_renameChecks (oldPath newPath : List Name) (replace : Bool) :
    Triple (Near s₀ g) (renameChecks oldPath newPath replace)
      (fun plan s => (∀ p ∈ plan, ∀ id node, p.target = some (id, node) → g id = some node) ∧ Near s₀ g s) (fun _ _ => True) := by
  apply (triple_splitParent oldPath).any.bind
  intro old
  apply (triple_splitParent newPath).any.bind
  intro new
  apply triple_readDirectory.any.bind_and
  intro oldParent holdParent
  apply (triple_lookup_near holdParent old.2 true).any.bind
  intro source
  apply triple_indexFind.any.bind_and
  intro node _
  apply Triple.require
  intro _
  apply triple_readDirectory.any.bind_and
  intro newParent hnewParent
  apply (triple_lookupOptional (triple_dirLookupVolume hnewParent true)).bind_and
  intro found _
  apply Triple.branch
  · exact Triple.pure fun s hs => ⟨nofun, hs⟩
  · apply (triple_findTarget source replace found).bind_and
    intro target hnodes
    exact Triple.pure fun s hs => ⟨fun p hp => Option.some.inj hp ▸ hnodes, hs⟩

theorem triple_renameTx (oldPath newPath : List Name) (replace : Bool) :
    Leads (Near s₀ g) (renameTx oldPath newPath replace) (Kept s₀) := by
  apply (triple_renameChecks oldPath newPath replace).bind_and
  intro plan hnodes
  cases plan with
  | none => exact Triple.pure fun s hs => ⟨g, hs⟩
  | some plan =>
    apply (triple_movesBelow plan.source plan.new.1).bind
    intro ancestor
    apply Triple.require
    intro _
    exact (triple_renameNames plan.old plan.new plan.source plan.target (hnodes plan rfl)).bind fun _ => Triple.done

theorem view_none_of_others {g g' : Graph} (hothers : ∀ other, other ≠ id → g' other = g other)
    (hid : g.view id ≠ none) {other : ObjectId} (hnone : g.view other = none) : g'.view other = none := by
  have hne : other ≠ id := by
    rintro rfl
    exact hid hnone
  rw [view_apply, hothers other hne, ← view_apply]
  exact hnone

theorem triple_unlinkTarget (new : ObjectId × Name) (replace : Bool) (found : Option (ObjectId × ObjectType)) :
    Triple (Near s₀ g) (unlinkTarget new replace found)
      (fun replaced s => ∃ g', ((∀ other, g.view other = none → g'.view other = none) ∧
        ∀ id node, replaced = some (id, node) → g'.view id = none ∧ nodeView (some node) = none) ∧ Near s₀ g' s)
      (fun _ _ => True) := by
  rcases found with _ | target
  · exact Triple.pure fun s hs => ⟨g, ⟨fun _ h => h, fun id node h => (by cases h)⟩, hs⟩
  · apply Triple.require
    intro _
    apply triple_indexFind.any.bind_and
    intro node hnode
    apply Triple.require
    intro htype
    have hview : nodeView (some node) = none := by
      obtain ⟨parent, object⟩ := node
      cases object with
      | directory body => exact absurd rfl htype
      | file links => rfl
      | symlink => rfl
    apply (triple_removeName new.2).seq
    apply Triple.pure
    rintro s ⟨g', ⟨hothers, hdir⟩, hs⟩
    refine ⟨g', ⟨fun other hnone => view_none_of_others hothers hdir hnone, fun id node' h => ?_⟩, hs⟩
    cases h
    refine ⟨view_none_of_others hothers hdir ?_, hview⟩
    rw [view_apply, hnode, hview]

theorem triple_linkNames (new : ObjectId × Name) (source : ObjectId) (links : Nat) (replaced : Option (ObjectId × Node))
    (hsource : g.view source = none)
    (hreplaced : ∀ id node, replaced = some (id, node) → g.view id = none ∧ nodeView (some node) = none) :
    Leads (Near s₀ g) (linkNames new source links replaced) (Kept s₀) := by
  apply (triple_addName _).seq
  apply Triple.of_exists
  intro g'
  apply Triple.of_and
  rintro ⟨hothers, hdir⟩
  have hnone : ∀ other, g.view other = none → g'.view other = none :=
    fun other h => view_none_of_others hothers hdir h
  apply (triple_setNode_empty _ _).bind
  · intro _
    apply triple_call_any.seq
    rcases replaced with _ | ⟨id, node⟩
    · exact .pure fun s hs => ⟨_, hs⟩
    · obtain ⟨hid, hview⟩ := hreplaced id node rfl
      apply triple_destroyReplaced
      rw [hview, view_update]
      by_cases hsame : id = source
      · rw [hsame, update_self]
        rfl
      · rw [update_of_ne hsame]
        exact hnone id hid
  · intro es hes
    rw [hnone source hsource] at hes
    cases hes
  · intro es hes
    cases hes

theorem triple_linkFileTx (existing newPath : List Name) (replace : Bool) :
    Leads (Near s₀ g) (linkFileTx existing newPath replace) (Kept s₀) := by
  apply Triple.look
  intro s hs
  apply Triple.require
  intro _
  apply (triple_lookupPath existing).any.bind
  intro source
  apply triple_indexFind.any.bind_and
  intro node hnode
  obtain ⟨parent, object⟩ := node
  cases object with
  | directory body => exact Triple.fail fun _ _ => trivial
  | symlink => exact Triple.fail fun _ _ => trivial
  | file links =>
    have hsource : g.view source = none := by
      rw [view_apply, hnode]
      rfl
    apply (triple_splitParent newPath).any.bind
    intro new
    apply triple_readDirectory.any.bind_and
    intro parent hparent
    apply (triple_lookupOptional (triple_dirLookupVolume hparent true)).bind_and
    intro found _
    apply Triple.branch
    · exact Triple.pure fun s hs => ⟨g, hs⟩
    · apply (triple_unlinkTarget new replace found).bind
      intro replaced
      apply Triple.of_exists
      intro g'
      apply Triple.of_and
      rintro ⟨hnone, hreplaced⟩
      apply Triple.require
      intro _
      apply (triple_linkNames new source links replaced (hnone source hsource) hreplaced).seq
      exact Triple.done

end Writing

end InfiltratorFS.Directory
