import IouringRuntime.Web.HttpRequest

/-!
# The routing tree

`RadixTree` (`web/RadixTree.h`): one node per pattern segment, with children
for static segments, at most one for parameters and at most one for wildcards.
`Match` walks down, trying them in this order, and goes back when a subtree has
no route for the method.

A segment of the request path is a `string_view`: an address and the characters
there. The address matters for wildcards, whose value is computed by pointer
subtraction. Callbacks are named by numbers.
-/

namespace IouringRuntime

structure HttpStreamHandler where
  onHeaders : Option Nat := none
  onBody : Option Nat := none
  onComplete : Option Nat := none
  onAbort : Option Nat := none
  deriving DecidableEq, Repr

structure RouteEntry where
  handler : Option Nat := none
  streamHandler : HttpStreamHandler := {}
  deriving DecidableEq, Repr

namespace RouteEntry

def hasHandler (e : RouteEntry) : Bool := e.handler.isSome

def hasStreamHandler (e : RouteEntry) : Bool :=
  e.streamHandler.onHeaders.isSome || e.streamHandler.onBody.isSome ||
    e.streamHandler.onComplete.isSome || e.streamHandler.onAbort.isSome

def hasAnyHandler (e : RouteEntry) : Bool := e.hasHandler || e.hasStreamHandler

end RouteEntry

/-- `std::array<RouteEntry, kMethodCount>`. -/
abbrev Routes := HttpMethod → RouteEntry

namespace Routes

def set (r : Routes) (method : HttpMethod) (entry : RouteEntry) : Routes :=
  fun m => if m = method then entry else r m

/-- `Node::HasAnyHandler`. -/
def hasAny (r : Routes) : Bool :=
  [.get, .head, .post, .put, .delete, .options, .patch, .unknown].any fun m => (r m).hasAnyHandler

/-- `Node::AllowHeaderValue`. -/
def allowHeaderValue (r : Routes) : Bytes :=
  let has (m : HttpMethod) := (r m).hasAnyHandler
  List.intercalate (ascii ", ") <|
    (if has .get then [ascii "GET"] else []) ++
    (if has .head || has .get then [ascii "HEAD"] else []) ++
    (if has .post then [ascii "POST"] else []) ++
    (if has .put then [ascii "PUT"] else []) ++
    (if has .delete then [ascii "DELETE"] else []) ++
    (if has .options then [ascii "OPTIONS"] else []) ++
    (if has .patch then [ascii "PATCH"] else [])

end Routes

/-- A node. Of a wildcard child only the routes are ever used. -/
structure RadixNode where
  segment : Bytes := []
  children : List RadixNode := []
  paramChild : Option RadixNode := none
  paramName : Bytes := []
  wildcardChild : Option Routes := none
  wildcardName : Bytes := []
  routes : Routes := fun _ => {}

structure StringView where
  data : Nat
  size : Nat
  deriving DecidableEq, Repr

/-- A `string_view` into the path, with the characters it shows. -/
structure Segment where
  data : Nat
  text : Bytes
  deriving DecidableEq, Repr

def Segment.view (s : Segment) : StringView := ⟨s.data, s.text.length⟩

/-- A default-constructed `string_view`. -/
def Segment.null : Segment := ⟨0, []⟩

structure RadixMatch where
  entry : Option RouteEntry := none
  params : List (Bytes × StringView) := []
  pathExists : Bool := false
  allowHeader : Bytes := []
  deriving DecidableEq, Repr

namespace RadixTree

def slash : UInt8 := 47

/-- The loop of `SplitPath` and `SplitPathView`: `find('/')` and `substr`, one
character at a time. `segment` is what has been read of the segment at `start`. -/
def splitLoop (start : Nat) (segment : Bytes) : Bytes → List Segment
  | [] => if segment.isEmpty then [] else [⟨start, segment⟩]
  | c :: rest =>
    if c = slash then
      let later := splitLoop (start + segment.length + 1) [] rest
      if segment.isEmpty then later else ⟨start, segment⟩ :: later
    else splitLoop start (segment ++ [c]) rest

/-- The path at `data` without a leading slash. -/
def splitFrom (data : Nat) (path : Bytes) : List Segment :=
  match path with
  | c :: rest => if c = slash then splitLoop (data + 1) [] rest else splitLoop data [] path
  | [] => []

def splitPath (path : Bytes) : List Bytes := (splitFrom 0 path).map Segment.text

/-- Behind a trailing slash stands one more, default-constructed segment. -/
def trailingSlash (path : Bytes) : Bool := 1 < path.length && path.getLast? == some slash

def splitPathView (data : Nat) (path : Bytes) : List Segment :=
  splitFrom data path ++ if trailingSlash path then [.null] else []

def isWildcard (segment : Bytes) : Bool := 1 < segment.length && segment.head? == some 42

def isParam (segment : Bytes) : Bool := 1 < segment.length && segment.head? == some 58

/-- The first child of that segment, or a new one at the end, goes through `f`. -/
def updateChild (segment : Bytes) (f : RadixNode → RadixNode) : List RadixNode → List RadixNode
  | [] => [f { segment }]
  | child :: rest =>
    if child.segment = segment then f child :: rest else child :: updateChild segment f rest

def insertSegments (method : HttpMethod) (entry : RouteEntry) :
    List Bytes → RadixNode → RadixNode
  | [], node => { node with routes := node.routes.set method entry }
  | segment :: rest, node =>
    if isWildcard segment then
      { node with
        wildcardName := if node.wildcardChild.isSome then node.wildcardName else segment.drop 1
        wildcardChild := some ((node.wildcardChild.getD fun _ => {}).set method entry) }
    else if isParam segment then
      { node with
        paramName := if node.paramChild.isSome then node.paramName else segment.drop 1
        paramChild := some (insertSegments method entry rest (node.paramChild.getD {})) }
    else
      { node with children := updateChild segment (insertSegments method entry rest) node.children }

def insert (root : RadixNode) (method : HttpMethod) (path : Bytes) (entry : RouteEntry) :
    RadixNode :=
  if path = [slash] then { root with routes := root.routes.set method entry }
  else insertSegments method entry (splitPath path) root

/-- `last.data() + last.size() - first.data()` as a `size_t`. -/
def wildcardValue (first last : Segment) : StringView :=
  ⟨first.data, (2 ^ 64 + (last.data + last.text.length) % 2 ^ 64 - first.data % 2 ^ 64) % 2 ^ 64⟩

/-- A route of the method is the result; one of another method makes the path exist. -/
def RadixMatch.visit (result : RadixMatch) (routes : Routes) (method : HttpMethod)
    (params : List (Bytes × StringView)) : RadixMatch :=
  if (routes method).hasAnyHandler then
    { entry := some (routes method), params, pathExists := true,
      allowHeader := routes.allowHeaderValue }
  else if routes.hasAny then
    { result with pathExists := true, allowHeader := routes.allowHeaderValue }
  else result

def child? (node : RadixNode) (segment : Bytes) : Option RadixNode :=
  node.children.find? fun c => c.segment = segment

/-- `params` is restored when a subtree has no entry, so it is passed down only. -/
def matchNode (method : HttpMethod) :
    List Segment → RadixNode → RadixMatch → List (Bytes × StringView) → RadixMatch
  | [], node, result, params => RadixMatch.visit result node.routes method params
  | segment :: rest, node, result, params =>
    if result.entry.isSome then result
    else
      let result :=
        match child? node segment.text with
        | some child => matchNode method rest child result params
        | none => result
      if result.entry.isSome then result
      else
        let result :=
          match node.paramChild with
          | some child =>
            matchNode method rest child result (params ++ [(node.paramName, segment.view)])
          | none => result
        if result.entry.isSome then result
        else
          match node.wildcardChild with
          | some routes =>
            RadixMatch.visit result routes method
              (params ++ [(node.wildcardName, wildcardValue segment (rest.getLastD segment))])
          | none => result

/-- `Match`, for a path that starts at the address `data`. -/
def matchPath (root : RadixNode) (method : HttpMethod) (data : Nat) (path : Bytes) : RadixMatch :=
  if path = [slash] then
    if (root.routes method).hasAnyHandler then
      { entry := some (root.routes method), pathExists := true }
    else if root.routes.hasAny then
      { pathExists := true, allowHeader := root.routes.allowHeaderValue }
    else {}
  else matchNode method (splitPathView data path) root {} []

end RadixTree

end IouringRuntime
