import SqlDump.Host

/-!
# Trees of files in memory

A tree holds files and directories by the names that lead to them from its root.
A path is walked from the root or from the current directory, and every step
needs a directory to start from.  Every operation that can fail on a real
machine may be made to fail here.
-/

namespace SqlDump

abbrev Place := List Text

inductive FileNode where
  | file (content : Bytes)
  | directory
deriving DecidableEq, Repr

/-- A failure that has nothing to do with the files. -/
structure Fault where
  failure : FileError
  /-- Number of bytes that are read or written all the same. -/
  done : Nat := 0
deriving DecidableEq, Repr

/-- The root itself is a directory that is not listed. -/
structure FileTree where
  nodes : List (Place × FileNode) := []
  /-- The directory where relative paths begin. -/
  current : Place := []
  /-- What goes wrong with the coming operations, one after the other. -/
  faults : List (Option Fault) := []
  /-- Number in the first name that is tried for a draft. -/
  stamp : Nat := 0
deriving DecidableEq, Repr

namespace FileTree

def node? (tree : FileTree) : Place → Option FileNode
  | [] => some .directory
  | place => tree.nodes.lookup place

def set (tree : FileTree) (place : Place) (node : FileNode) : FileTree :=
  { tree with nodes := tree.nodes.filter (fun entry => entry.1 != place) ++
    [(place, node)] }

def erase (tree : FileTree) (place : Place) : FileTree :=
  { tree with nodes := tree.nodes.filter fun entry => entry.1 != place }

def enter (tree : FileTree) (here : Place) : Except FileError Unit :=
  match tree.node? here with
  | some .directory => .ok ()
  | some (.file _) => .error .notADirectory
  | none => .error .notFound

def follow (here : Place) (name : Text) : Place :=
  if Path.isSkipped name then here
  else if name = ['.', '.'] then here.dropLast
  else here ++ [name]

def allowed (fault : Option FileError) : Except FileError Unit :=
  match fault with
  | none => .ok ()
  | some failure => .error failure

def start (tree : FileTree) (path : Text) : Place :=
  if Path.isAbsolute path then [] else tree.current

def walk (tree : FileTree) (here : Place) : List Text → Except FileError Place
  | [] => .ok here
  | name :: names => do
      tree.enter here
      allowed (FileError.ofName? name)
      tree.walk (follow here name) names

def locate (tree : FileTree) (path : Text) : Except FileError Place := do
  allowed (FileError.ofPath? path)
  if path = [] then .error .notFound
  else tree.walk (tree.start path) (path.splitOn '/')

def find (tree : FileTree) (path : Text) : Except FileError FileNode := do
  match tree.node? (← tree.locate path) with
  | some node => .ok node
  | none => .error .notFound

/-- The directory that holds the last component of a path, and that component;
slashes at the end are left out. -/
def locateParent (tree : FileTree) (path : Text) :
    Except FileError (Place × Text) := do
  allowed (FileError.ofPath? path)
  if path = [] then .error .notFound
  let bare := Text.dropEndWhile (· == '/') path
  let (front, last) := Path.splitLast bare
  let origin := tree.start path
  let here ← if front = [] then .ok origin
      else tree.walk origin (front.splitOn '/')
  tree.enter here
  .ok (here, last)

def pointsElsewhere (name : Text) : Bool :=
  Path.isSkipped name || name == ['.', '.']

def makeDirectory (tree : FileTree) (path : Text) :
    Except FileError FileTree := do
  let (here, name) ← tree.locateParent path
  if pointsElsewhere name then .error .alreadyExists
  allowed (FileError.ofName? name)
  match tree.node? (here ++ [name]) with
  | some _ => .error .alreadyExists
  | none => .ok (tree.set (here ++ [name]) .directory)

def draftName (number : Nat) : Text :=
  let digits := Text.ofNat number
  ".tmp".toList ++ List.replicate (6 - digits.length) '0' ++ digits

/-- The first of so many names, counted from a number, that nothing in a
directory has. -/
def freeName? (tree : FileTree) (here : Place) : Nat → Nat → Option Text
  | 0, _ => none
  | tries + 1, number =>
      if (tree.node? (here ++ [draftName number])).isNone then
        some (draftName number)
      else tree.freeName? here tries (number + 1)

def createDraft (tree : FileTree) (directory : Text) :
    Except FileError (Place × FileTree) := do
  let (here, _) ← tree.locateParent (Path.join directory (draftName tree.stamp))
  match tree.freeName? here 65536 tree.stamp with
  | some name => .ok (here ++ [name], tree.set (here ++ [name]) (.file []))
  | none => .error .alreadyExists

def append (tree : FileTree) (place : Place) (bytes : Bytes) : FileTree :=
  match tree.node? place with
  | some (.file content) => tree.set place (.file (content ++ bytes))
  | _ => tree

/-- Give the file at a place the name that a path leads to; a file of that name
is replaced. -/
def move (tree : FileTree) (place : Place) (path : Text) :
    Except FileError FileTree := do
  let (here, name) ← tree.locateParent path
  if pointsElsewhere name then .error .busy
  allowed (FileError.ofName? name)
  if Text.endsWith path ['/'] then .error .notADirectory
  match tree.node? place, tree.node? (here ++ [name]) with
  | _, some .directory => .error .isADirectory
  | some (.file content), _ =>
      .ok ((tree.erase place).set (here ++ [name]) (.file content))
  | _, _ => .error .notFound

def content (tree : FileTree) (path : Text) : Except FileError Bytes := do
  match ← tree.find path with
  | .file content => .ok content
  | .directory => .error .isADirectory

def names (tree : FileTree) (path : Text) : List Text :=
  match tree.locate path with
  | .ok here =>
      tree.nodes.filterMap fun entry =>
        if entry.1.dropLast = here then entry.1.getLast? else none
  | .error _ => []

/-- The tree with a directory at a place, and directories on the way to it. -/
def addDirectory (tree : FileTree) (place : Place) : FileTree :=
  ((List.range (place.length + 1)).map place.take).foldl (fun grown start =>
    if (grown.node? start).isSome then grown else grown.set start .directory)
      tree

/-- The tree without files whose current directory is the one at a place. -/
def emptyAt (place : Place) : FileTree :=
  { addDirectory {} place with current := place }

/-- The place of a relative path that never points upwards. -/
def placeOf (tree : FileTree) (path : Text) : Place :=
  tree.current ++ (path.splitOn '/').filter fun name => !Path.isSkipped name

/-- The tree with the file that a path names, and directories on the way to
it. -/
def addFile (tree : FileTree) (path : Text) (content : Bytes) : FileTree :=
  (tree.addDirectory (tree.placeOf path).dropLast).set (tree.placeOf path)
    (.file content)

/-- The relative path of a place below the current directory. -/
def pathOf? (tree : FileTree) (place : Place) : Option Text :=
  if tree.current.isPrefixOf place then
    some (Text.join ['/'] (place.drop tree.current.length))
  else none

/-- The files below the current directory that another tree does not hold with
the same content. -/
def changedFiles (before after : FileTree) : List (Text × Bytes) :=
  after.nodes.filterMap fun (place, node) =>
    match node with
    | .directory => none
    | .file content =>
        if before.node? place = some node then none
        else (after.pathOf? place).map fun path => (path, content)

end FileTree

namespace FileNode

def kind : FileNode → FileKind
  | .file _ => .file
  | .directory => .directory

end FileNode

namespace FileTree

def nextFault (tree : FileTree) : Option Fault × FileTree :=
  (tree.faults.head?.join, { tree with faults := tree.faults.tail })

/-- An operation; one that fails leaves the files alone. -/
def attempt (action : FileTree → Except FileError (β × FileTree)) :
    StateM FileTree (Except FileError β) :=
  fun tree =>
    let (fault, tree) := tree.nextFault
    match fault with
    | some fault => (.error fault.failure, tree)
    | none =>
        match action tree with
        | .ok (value, changed) => (.ok value, changed)
        | .error failure => (.error failure, tree)

/-- An operation that changes nothing. -/
def inspect (action : FileTree → Except FileError β) :
    StateM FileTree (Except FileError β) :=
  attempt fun tree => (action tree).map fun value => (value, tree)

def change (edit : FileTree → Except FileError FileTree) :
    StateM FileTree (Except FileError Unit) :=
  attempt fun tree => (edit tree).map fun changed => ((), changed)

def storedWith (tree : FileTree) (path : Text) (fault : Option Fault) :
    StoredFile :=
  match tree.content path, fault with
  | .error failure, _ => { bytes := [], fault := some failure }
  | .ok content, none => { bytes := content }
  | .ok content, some fault =>
      { bytes := content.take fault.done, fault := some fault.failure }

end FileTree

instance : Host (StateM FileTree) where
  Draft := Place
  kind? path := fun tree => ((tree.find path).toOption.map (·.kind), tree)
  names path := fun tree => (tree.names path, tree)
  size path := FileTree.inspect fun tree => (tree.find path).map fun node =>
    match node with
    | .file content => content.length
    | .directory => 0
  stored path := fun tree =>
    let (fault, tree) := tree.nextFault
    (tree.storedWith path fault, tree)
  content path := FileTree.inspect (·.content path)
  makeDirectory path := FileTree.change (·.makeDirectory path)
  createDraft directory := FileTree.attempt (·.createDraft directory)
  append place bytes := fun tree =>
    let (fault, tree) := tree.nextFault
    match fault with
    | some fault =>
        (.error fault.failure, tree.append place (bytes.take fault.done))
    | none => (.ok (), tree.append place bytes)
  sync _ := FileTree.change .ok
  publish place path := FileTree.change (·.move place path)
  discard place := fun tree => ((), tree.erase place)
  clock := fun tree => (0, tree)

end SqlDump
