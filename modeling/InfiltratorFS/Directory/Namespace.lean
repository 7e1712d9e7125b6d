import InfiltratorFS.Directory.Cache
import InfiltratorFS.Library.Prog

namespace InfiltratorFS.Directory

open Prog

section Graph

structure Dirent where
  name : Name
  objectId : ObjectId
  objectType : ObjectType
  deriving DecidableEq, Inhabited

/-- The entries of a directory object by its version: in the object itself,
in a list of pages, or in a radix tree, which stands here for its contents. -/
inductive DirectoryBody
  | classic (entries : List Dirent)
  | paged (pages : List (List Dirent))
  | tree (entries : List Dirent)
  deriving DecidableEq, Inhabited

def DirectoryBody.entries : DirectoryBody → List Dirent
  | .classic entries => entries
  | .paged pages => pages.flatten
  | .tree entries => entries

inductive NamespaceObject
  | directory (body : DirectoryBody)
  | file (links : Nat)
  | symlink
  deriving DecidableEq, Inhabited

def NamespaceObject.type : NamespaceObject → ObjectType
  | .directory _ => .directory
  | .file _ => .file
  | .symlink => .symlink

structure Node where
  parentId : Option ObjectId
  object : NamespaceObject
  deriving DecidableEq, Inhabited

abbrev Graph := ObjectId → Option Node

def Graph.directory (g : Graph) (id : ObjectId) : Option DirectoryBody :=
  match g id with
  | some ⟨_, .directory body⟩ => some body
  | _ => none

end Graph

section Live

/-- What the code outside of the namespace answers: a status, which is not the
one of an absent name, and where it has one, the ID or the choice it makes. -/
structure Answer where
  status : Status
  known : status ≠ .notFound
  id : ObjectId
  flag : Bool

theorem ok_ne_notFound : Status.ok ≠ .notFound := by decide

/-- The mounted graph with the directory cache over it. -/
structure Live where
  casefold : Bool
  utf8 : Name → Bool
  removable : Name → Bool
  hardLinks : Bool
  symbolicLinks : Bool
  directoryTree : Bool
  pagedMetadata : Bool
  rootId : ObjectId
  objects : Graph
  cache : Option DirectoryCache
  env : Nat → Answer
  tick : Nat

abbrev LiveM := Prog Live Status

def request : LiveM Answer := fun s =>
  let answer := s.env s.tick
  let s := { s with tick := s.tick + 1 }
  if answer.status = .ok then (.ok answer, s) else (.error answer.status, s)

/-- A read, a write, an allocation or any other call that may fail. -/
def call : LiveM Unit := do
  let _ ← request
  pure ()

variable (id : ObjectId)

def directoryCacheLookup (name : Name) : LiveM (Option (ObjectId × ObjectType)) := do
  let s ← get
  pure (s.cache.bind fun cache => cache.lookup s.casefold id name)

def directoryCacheComplete : LiveM Bool := do
  let s ← get
  pure (s.cache.any fun cache => cache.complete id)

def directoryCachePage (name : Name) : LiveM (Option Nat) := do
  let s ← get
  pure (s.cache.bind fun cache => cache.page s.casefold id name)

def directoryCacheStore (name : Name) (objectId : ObjectId) (type : ObjectType) (page : Option Nat) :
    LiveM Bool := fun s =>
  match s.cache with
  | none => (.ok false, s)
  | some cache =>
    let stored := cache.store s.casefold id name objectId type page
    (.ok stored.1, { s with cache := some stored.2 })

def directoryCacheMarkComplete : LiveM Unit :=
  modify fun s => { s with cache := s.cache.map (·.markComplete id) }

def directoryCacheRemove (name : Name) : LiveM Unit :=
  modify fun s => { s with cache := s.cache.map (·.remove s.casefold id name) }

def directoryCacheInvalidateParent : LiveM Unit :=
  modify fun s => { s with cache := s.cache.map (·.invalidateParent id) }

end Live

section Lookup

variable (id : ObjectId)

/-- Store every entry of a list in the cache and look for the wanted name on
the way. A classic directory keeps the last match, a paged one the first. -/
def scanEntries (page : Option Nat) (first : Bool) (name : Name) :
    List Dirent → Option Dirent → Bool → LiveM (Option Dirent × Bool)
  | [], wanted, cachedAll => pure (wanted, cachedAll)
  | entry :: rest, wanted, cachedAll => do
    let stored ← directoryCacheStore id entry.name entry.objectId entry.objectType page
    let s ← get
    scanEntries page first name rest
      (if !(first && wanted.isSome) && namespaceNameEqual s.casefold entry.name name then some entry else wanted)
      (cachedAll && stored)

def scanPages (name : Name) : List (List Dirent) → Nat → Option Dirent → Bool → LiveM (Option Dirent × Bool)
  | [], _, wanted, cachedAll => pure (wanted, cachedAll)
  | page :: rest, p, wanted, cachedAll => do
    call
    let found ← scanEntries id (some p) true name page wanted cachedAll
    scanPages name rest (p + 1) found.1 found.2

def finishScan (found : Option Dirent × Bool) : LiveM (ObjectId × ObjectType) := do
  if found.2 then directoryCacheMarkComplete id
  match found.1 with
  | none => fail .notFound
  | some entry => pure (entry.objectId, entry.objectType)

def cachedFirst (name : Name) (uncached : LiveM (ObjectId × ObjectType)) :
    LiveM (ObjectId × ObjectType) := do
  match ← directoryCacheLookup id name with
  | some found => pure found
  | none =>
    if ← directoryCacheComplete id then fail .notFound
    else uncached

def treeDirLookup (entries : List Dirent) (name : Name) (wantEntry : Bool) : LiveM (ObjectId × ObjectType) :=
  cachedFirst id name do
    call
    let s ← get
    match entries.find? fun entry => namespaceNameEqual s.casefold entry.name name with
    | none => fail .notFound
    | some entry =>
      if wantEntry then
        let _ ← directoryCacheStore id name entry.objectId entry.objectType none
      pure (entry.objectId, entry.objectType)

def pagedDirLookup (pages : List (List Dirent)) (name : Name) : LiveM (ObjectId × ObjectType) :=
  cachedFirst id name do
    let found ← scanPages id name pages 0 none true
    finishScan id found

def dirLookupVolume (body : DirectoryBody) (name : Name) (wantEntry : Bool) : LiveM (ObjectId × ObjectType) :=
  cachedFirst id name
    (match body with
    | .tree entries => treeDirLookup id entries name wantEntry
    | .paged pages => pagedDirLookup id pages name
    | .classic entries => do
      let found ← scanEntries id none false name entries none true
      finishScan id found)

end Lookup

section Mutation

def direntSize (name : Name) : Nat := (24 + name.length + 7) / 8 * 8

def bytesUsed (entries : List Dirent) : Nat := (entries.map fun entry => direntSize entry.name).sum

def metadataPageDataSize : Nat := 4016

def directoryPagePointers : Nat := 482

def addArgumentsValid (s : Live) (name : Name) (objectId : ObjectId) : Bool :=
  name.length != 0 && name.length ≤ nameMax && !name.contains 47 && name != [46] && name != [46, 46] &&
    !idIsZero objectId && s.utf8 name

def dirAdd (entries : List Dirent) (entry : Dirent) : LiveM (List Dirent) := do
  let s ← get
  if !addArgumentsValid s entry.name entry.objectId then fail .invalidArgument
  else if entries.any fun e => namespaceNameEqual s.casefold e.name entry.name then fail .alreadyExists
  else if 144 + bytesUsed entries + direntSize entry.name > 4000 then fail .noSpace
  else pure (entries ++ [entry])

def lookupOptional (lookup : LiveM (ObjectId × ObjectType)) : LiveM (Option (ObjectId × ObjectType)) := do
  match ← attempt lookup with
  | .ok found => pure (some found)
  | .error .notFound => pure none
  | .error status => fail status

def unlessFound (lookup : LiveM (ObjectId × ObjectType)) : LiveM Unit := do
  let found ← lookupOptional lookup
  if found.isSome then fail .alreadyExists else pure ()

variable (id : ObjectId) (pages : List (List Dirent))

def appendToPages (entry : Dirent) : Option (List (List Dirent)) :=
  match pages.getLast? with
  | none => if directoryPagePointers ≤ pages.length then none else some (pages ++ [[entry]])
  | some last =>
    if direntSize entry.name > metadataPageDataSize - bytesUsed last then
      if directoryPagePointers ≤ pages.length then none else some (pages ++ [[entry]])
    else some (pages.dropLast ++ [last ++ [entry]])

def pagedDirAdd (entry : Dirent) : LiveM (List (List Dirent)) := do
  let s ← get
  if !addArgumentsValid s entry.name entry.objectId then fail .invalidArgument
  else
    unlessFound (pagedDirLookup id pages entry.name)
    call
    match appendToPages pages entry with
    | none => fail .noSpace
    | some grown =>
      call
      let _ ← directoryCacheStore id entry.name entry.objectId entry.objectType (some (grown.length - 1))
      pure grown

def treeDirAdd (entries : List Dirent) (entry : Dirent) : LiveM (List Dirent) := do
  let s ← get
  if !addArgumentsValid s entry.name entry.objectId then fail .invalidArgument
  else
    unlessFound (treeDirLookup id entries entry.name false)
    call
    if entries.any fun e => namespaceNameEqual s.casefold e.name entry.name then fail .alreadyExists
    else if entries.length = 2 ^ 32 - 1 then fail .overflow
    else
      let _ ← directoryCacheStore id entry.name entry.objectId entry.objectType none
      pure (entries ++ [entry])

def dirAddVolume (body : DirectoryBody) (entry : Dirent) : LiveM DirectoryBody := do
  match body with
  | .tree entries =>
    let entries ← treeDirAdd id entries entry
    pure (.tree entries)
  | .paged pages =>
    let pages ← pagedDirAdd id pages entry
    pure (.paged pages)
  | .classic entries =>
    let entries ← dirAdd entries entry
    let _ ← directoryCacheStore id entry.name entry.objectId entry.objectType none
    pure (.classic entries)

def eraseName (casefold : Bool) (entries : List Dirent) (name : Name) : List Dirent :=
  entries.eraseP fun e => namespaceNameEqual casefold e.name name

/-- The pages in the order in which a removal reads them: the page that the
cache names first, then the others. -/
def removalOrder (hint : Option Nat) : List Nat :=
  match hint with
  | some p =>
    if p < pages.length then p :: (List.range pages.length).filter (· != p) else List.range pages.length
  | none => List.range pages.length

/-- The pages are compared byte by byte, also where names are case folded. -/
def findPage (name : Name) : List Nat → LiveM Nat
  | [] => fail .notFound
  | p :: rest => do
    call
    if (pages.getD p []).any fun e => e.name == name then pure p else findPage name rest

def pagedDirRemove (name : Name) : LiveM (List (List Dirent)) := do
  let hint ← directoryCachePage id name
  let p ← findPage pages name (removalOrder pages hint)
  let page := pages.getD p []
  if page.length = 1 then
    directoryCacheInvalidateParent id
    pure (pages.eraseIdx p)
  else
    call
    directoryCacheRemove id name
    pure (pages.set p (page.eraseP fun e => e.name == name))

def dirRemoveVolume (body : DirectoryBody) (name : Name) : LiveM DirectoryBody := do
  let s ← get
  match body with
  | .tree entries =>
    call
    if entries.any fun e => namespaceNameEqual s.casefold e.name name then
      directoryCacheRemove id name
      pure (.tree (eraseName s.casefold entries name))
    else fail .notFound
  | .paged pages =>
    let pages ← pagedDirRemove id pages name
    pure (.paged pages)
  | .classic entries =>
    if entries.any fun e => namespaceNameEqual s.casefold e.name name then
      directoryCacheRemove id name
      pure (.classic (eraseName s.casefold entries name))
    else fail .notFound

end Mutation

section Calls

variable (source : ObjectId × ObjectType) (id : ObjectId) (path : List Name)

def setNode (node : Option Node) : LiveM Unit :=
  modify fun s => { s with objects := Function.update s.objects id node }

def indexFind : LiveM Node := do
  call
  let s ← get
  match s.objects id with
  | none => fail .notFound
  | some node => pure node

def readDirectory : LiveM (Node × DirectoryBody) := do
  let node ← indexFind id
  match node.object with
  | .directory body => pure (node, body)
  | _ => fail .corrupt

def addName (entry : Dirent) : LiveM Unit := do
  let found ← readDirectory id
  let body ← dirAddVolume id found.2 entry
  setNode id (some ⟨found.1.parentId, .directory body⟩)
  call

def removeName (name : Name) : LiveM Unit := do
  let found ← readDirectory id
  let body ← dirRemoveVolume id found.2 name
  setNode id (some ⟨found.1.parentId, .directory body⟩)
  call

def nameAccepted (s : Live) (name : Name) : Bool := s.utf8 name && s.removable name

def lookupFrom : List Name → ObjectId → LiveM ObjectId
  | [], current => pure current
  | component :: rest, current => do
    let s ← get
    if component.length = 0 ∨ nameMax < component.length then fail .nameTooLong
    else if !nameAccepted s component then fail .invalidArgument
    else
      let node ← indexFind current
      match node.object with
      | .directory body =>
        if component = [46] then lookupFrom rest current
        else if component = [46, 46] then
          match node.parentId with
          | none => lookupFrom rest s.rootId
          | some parent =>
            let up ← indexFind parent
            if up.object.type ≠ .directory then fail .corrupt else lookupFrom rest parent
        else
          let found ← dirLookupVolume current body component true
          let child ← indexFind found.1
          if child.object.type ≠ found.2 then fail .corrupt
          else lookupFrom rest found.1
      | _ => fail .notDirectory

def lookupPath : LiveM ObjectId := do
  let s ← get
  lookupFrom path s.rootId

def splitParent : LiveM (ObjectId × Name) := do
  let s ← get
  match path.getLast? with
  | none => fail .invalidArgument
  | some name =>
    if name.length = 0 ∨ nameMax < name.length then fail .nameTooLong
    else if name = [46] ∨ name = [46, 46] ∨ !nameAccepted s name then fail .invalidArgument
    else
      let parent ← lookupPath path.dropLast
      let node ← indexFind parent
      if node.object.type ≠ .directory then fail .notDirectory
      else pure (parent, name)

def freshObject (s : Live) : ObjectType → NamespaceObject
  | .directory => .directory (if s.directoryTree then .tree [] else if s.pagedMetadata then .paged [] else .classic [])
  | .file => .file 1
  | .symlink => .symlink

def createObject (type : ObjectType) : LiveM Unit := do
  let s ← get
  if type = .symlink ∧ !s.symbolicLinks then fail .notSupported
  else
    let target ← splitParent path
    let parent ← readDirectory target.1
    unlessFound (dirLookupVolume target.1 parent.2 target.2 false)
    let answer ← request
    let s ← get
    if (s.objects answer.id).isSome ∨ answer.id = s.rootId then fail .alreadyExists
    else
      setNode answer.id (some ⟨some target.1, freshObject s type⟩)
      addName target.1 ⟨target.2, answer.id, type⟩

def checkRemovable (node : Node) : LiveM Unit := do
  let s ← get
  match node.object with
  | .directory body => if body.entries ≠ [] then fail .notEmpty else call
  | .file links => if links = 0 ∨ (1 < links ∧ !s.hardLinks) then fail .corrupt else call
  | .symlink => call

/-- The object loses a link, or goes away with its last one. -/
def dropObject (node : Node) : LiveM Unit := do
  match node.object with
  | .file links => if 1 < links then setNode id (some ⟨none, .file (links - 1)⟩) else setNode id none
  | .directory _ => setNode id none
  | .symlink => setNode id none
  call

def removeObject (wantDirectory : Bool) : LiveM Unit := do
  let target ← splitParent path
  let parent ← readDirectory target.1
  let found ← dirLookupVolume target.1 parent.2 target.2 true
  let child ← indexFind found.1
  if wantDirectory ∧ child.object.type ≠ .directory then fail .notDirectory
  else if !wantDirectory ∧ child.object.type = .directory then fail .isDirectory
  else
    checkRemovable child
    removeName target.1 target.2
    dropObject found.1 child

def idIsAncestor (ancestor : ObjectId) : Nat → ObjectId → LiveM Bool
  | 0, _ => fail .loopDetected
  | fuel + 1, current => do
    let s ← get
    if current = ancestor then pure true
    else if current = s.rootId then pure false
    else
      let node ← indexFind current
      match node.parentId with
      | none => pure false
      | some parent => idIsAncestor ancestor fuel parent

/-- The names move: within one directory the old name goes before the new one
comes, between two directories it is the other way round. -/
def moveName (oldParent newParent : ObjectId) (oldName newName : Name) (source : ObjectId × ObjectType) : LiveM Unit := do
  if oldParent = newParent then
    removeName oldParent oldName
    addName newParent ⟨newName, source.1, source.2⟩
  else
    addName newParent ⟨newName, source.1, source.2⟩
    removeName oldParent oldName

def reparent (newParent : ObjectId) (sameParent : Bool) : LiveM Unit := do
  let node ← indexFind source.1
  let s ← get
  if sameParent ∨ (source.2 = .file ∧ s.hardLinks ∧ node.parentId = none) then pure ()
  else setNode source.1 (some { node with parentId := some newParent })
  call

def checkTarget (replace : Bool) (target : ObjectId × ObjectType) : LiveM Node := do
  if !replace then fail .alreadyExists
  else
    let node ← indexFind target.1
    if node.object.type ≠ target.2 then fail .corrupt
    else if source.2 ≠ .directory ∧ target.2 = .directory then fail .isDirectory
    else if source.2 = .directory ∧ target.2 ≠ .directory then fail .notDirectory
    else pure node

def findTarget (replace : Bool) :
    Option (ObjectId × ObjectType) → LiveM (Option (ObjectId × Node))
  | none => pure none
  | some target => do
    let node ← checkTarget source replace target
    pure (some (target.1, node))

/-- A directory does not move below itself. -/
def movesBelow (newParent : ObjectId) : LiveM Bool :=
  if source.2 = .directory then idIsAncestor source.1 1024 newParent else pure false

def destroyReplaced (node : Node) : LiveM Unit := do
  checkRemovable node
  dropObject id node

def renameNames (old new : ObjectId × Name) (source : ObjectId × ObjectType) (target : Option (ObjectId × Node)) :
    LiveM Unit := do
  match target with
  | some (id, node) =>
    destroyReplaced id node
    removeName new.1 new.2
  | none => pure ()
  moveName old.1 new.1 old.2 new.2 source
  reparent source new.1 (old.1 == new.1)

structure RenamePlan where
  old : ObjectId × Name
  new : ObjectId × Name
  source : ObjectId × ObjectType
  target : Option (ObjectId × Node)

/-- `rename_tx` up to the check for ancestry. It ends early where both names
are names of one object. -/
def renameChecks (oldPath newPath : List Name) (replace : Bool) : LiveM (Option RenamePlan) := do
  let old ← splitParent oldPath
  let new ← splitParent newPath
  let oldParent ← readDirectory old.1
  let source ← dirLookupVolume old.1 oldParent.2 old.2 true
  let node ← indexFind source.1
  if node.object.type ≠ source.2 then fail .corrupt
  else
    let newParent ← readDirectory new.1
    let found ← lookupOptional (dirLookupVolume new.1 newParent.2 new.2 true)
    if found.any (·.1 == source.1) then pure none
    else
      let target ← findTarget source replace found
      pure (some ⟨old, new, source, target⟩)

def RenamePlan.apply (plan : RenamePlan) : LiveM Bool := do
  renameNames plan.old plan.new plan.source plan.target
  pure true

def RenamePlan.finish (plan : RenamePlan) : LiveM Bool := do
  let ancestor ← movesBelow plan.source plan.new.1
  if ancestor then fail .invalidArgument else plan.apply

/-- `rename_tx`; the answer says whether anything was staged. -/
def renameTx (oldPath newPath : List Name) (replace : Bool) : LiveM Bool := do
  match ← renameChecks oldPath newPath replace with
  | none => pure false
  | some plan => plan.finish

def unlinkTarget (new : ObjectId × Name) (replace : Bool) :
    Option (ObjectId × ObjectType) → LiveM (Option (ObjectId × Node))
  | none => pure none
  | some target =>
    if !replace then fail .alreadyExists
    else do
      let node ← indexFind target.1
      if node.object.type = .directory then fail .isDirectory
      else
        removeName new.1 new.2
        pure (some (target.1, node))

def linkNames (new : ObjectId × Name) (source : ObjectId) (links : Nat) (replaced : Option (ObjectId × Node)) :
    LiveM Unit := do
  addName new.1 ⟨new.2, source, .file⟩
  setNode source (some ⟨none, .file (links + 1)⟩)
  call
  match replaced with
  | none => pure ()
  | some (id, node) => destroyReplaced id node

/-- `link_file_tx`; the answer says whether anything was staged. -/
def linkFileTx (existing newPath : List Name) (replace : Bool) : LiveM Bool := do
  let s ← get
  if !s.hardLinks then fail .notSupported
  else
    let source ← lookupPath existing
    let node ← indexFind source
    match node.object with
    | .directory _ => fail .isDirectory
    | .symlink => fail .notSupported
    | .file links =>
      let new ← splitParent newPath
      let parent ← readDirectory new.1
      let found ← lookupOptional (dirLookupVolume new.1 parent.2 new.2 true)
      if found.any (·.1 == source) then pure false
      else
        let replaced ← unlinkTarget new replace found
        if links = 0 then fail .corrupt
        else
          linkNames new source links replaced
          pure true

end Calls

end InfiltratorFS.Directory
