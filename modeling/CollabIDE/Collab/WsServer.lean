import CollabIDE.Auth.Authorize
import CollabIDE.Http.Cookies
import CollabIDE.Lib.Varint
import CollabIDE.Shared.Protocol
/-!
# The WebSocket door

An upgrade request on its way through `attachWsServer`, `handshake` and
`handleConnection` to a room.  The promises of `handshake` and of
`handleConnection` are detached and nothing handles a rejection of theirs, so
what is thrown on the way escapes unless a `catch` on the way stops it.
-/

namespace CollabIDE.Collab.WsServer

open CollabIDE.Auth.Authorize CollabIDE.Http.Cookies CollabIDE.Http.Errors
open CollabIDE.Projects.MemberTable CollabIDE.Shared.Protocol CollabIDE.Lib.Varint

def SESSION_COOKIE : String := "ce_session"

/-- The parts of an upgrade request that are read. -/
structure Request where
  url : Option String
  origin : Option String
  cookie : Option String
  deriving DecidableEq

structure Url where
  pathname : String
  searchParams : List (String × String)

/-- The claims of a token; `none` for one that is not a string. -/
structure Payload where
  sub : Option String
  email : Option String

structure SessionClaims where
  userId : String
  email : String

structure AuthedUser where
  id : String
  email : String
  displayName : String

/-- The platform, the packages and the configuration the door uses.  A call that
throws is an `error`. -/
structure Platform (δ : Type) where
  /-- `new URL(target, 'http://localhost')`. -/
  newURL : String → Except Thrown Url
  /-- `wss.handleUpgrade` completes the handshake, or ends the raw socket. -/
  handleUpgrade : Request → Bool
  jwtVerify : String → Except Thrown Payload
  webOrigin : String
  /-- `Y.applyUpdate`. -/
  applyUpdate : δ → List UInt8 → Except Thrown δ
  emptyDoc : δ
  /-- The document of a file's text. -/
  seed : String → δ
  /-- `JSON.stringify` of the value of a JSON text.  It throws on a value nested
  deeper than the stack, which `JSON.parse` reads. -/
  stringify : String → Except Thrown String

/-- A client with a state in the awareness of a room. -/
structure Client where
  id : Nat
  clock : Nat
  /-- The JSON text it was read from. -/
  state : String

structure FileRow where
  content : String
  isDir : Bool

/-- How the database calls of one `createRoom` come out. -/
structure CreateCalls where
  findFirst : Except Thrown (Option FileRow)
  findSnapshot : Except Thrown (Option (List UInt8))
  findUpdates : Except Thrown (List (List UInt8))
  writeSnapshot : Except Thrown Unit

/-- How a call of `joinRoom` goes. -/
inductive Join (δ : Type)
  /-- No promise is registered. -/
  | creates (calls : CreateCalls)
  /-- It awaits the promise of a room another connection asked for. -/
  | finds (pending : Except Thrown (Option δ))
  /-- The room it awaited was evicted meanwhile: it starts over. -/
  | evicted (again : Join δ)

/-- How the calls awaited on the way come out. -/
structure Calls (δ : Type) where
  findUser : String → Except Thrown (Option AuthedUser)
  findMember : String → String → Except Thrown (Option Role)
  join : DocRef → Join δ
  /-- The presence in the room as the connection resumes in it. -/
  awareness : DocRef → List Client

/-- Where the path of a request ends. -/
inductive Outcome (δ : Type)
  /-- The raw socket is destroyed. -/
  | destroyed
  | closed (code : CloseCode)
  | attached (ydoc : δ)
  /-- An exception or a rejection nothing handles. -/
  | escaped (error : Thrown)

variable {δ : Type}

/-- `url.searchParams.get`. -/
def Url.get (url : Url) (name : String) : Option String := url.searchParams.lookup name

def verifyToken (p : Platform δ) (token : String) : Except Thrown SessionClaims := do
  let payload ← p.jwtVerify token
  match payload.sub, payload.email with
  | some userId, some email => .ok ⟨userId, email⟩
  | _, _ => .error "Error: Session token is missing its subject or email claim"

def authenticateToken (p : Platform δ) (calls : Calls δ) (token : String) :
    Except Thrown (Option AuthedUser) :=
  if token = "" then .ok none
  else
    match verifyToken p token with
    | .error _ => .ok none
    | .ok claims => calls.findUser claims.userId

/-- The connection's user and document, or the code the socket is closed with. -/
def handshake (p : Platform δ) (calls : Calls δ) (request : Request) :
    Except Thrown (CloseCode ⊕ AuthedUser × DocRef) :=
  if request.origin.any (· ≠ p.webOrigin) then .ok (.inl .BadRequest)
  else do
    let url ← p.newURL (request.url.getD "")
    match parseDocId ((url.get WS_DOC_PARAM).getD "") with
    | none => .ok (.inl .BadRequest)
    | some doc =>
      let token ← readCookie request.cookie SESSION_COOKIE
      let user ← match token with
        | none => .ok none
        | some token => authenticateToken p calls token
      match user with
      | none => .ok (.inl .Unauthenticated)
      | some user => .ok (.inr (user, doc))

/-- What `assertProjectAccess` throws. -/
inductive AccessError
  | app (error : AppError)
  | database (error : Thrown)

def assertAccess (calls : Calls δ) (userId projectId : String) (minRole : Role) :
    Except AccessError Role :=
  match calls.findMember userId projectId with
  | .error error => .error (.database error)
  | .ok none => .error (.app notFound)
  | .ok (some role) =>
    if hasRole role minRole then .ok role else .error (.app (forbidden minRole))

/-- The stored document: the snapshot, then the updates. -/
def rebuild (p : Platform δ) (snapshot : Option (List UInt8)) (updates : List (List UInt8)) :
    Except Thrown δ :=
  (snapshot.toList ++ updates).foldlM p.applyUpdate p.emptyDoc

/-- `createRoom`, for the document of the room.  The write of an earlier room it
may wait for never rejects: `leaveRoom` catches it. -/
def createRoom (p : Platform δ) (calls : CreateCalls) : Except Thrown (Option δ) := do
  match ← calls.findFirst with
  | none => .ok none
  | some file =>
    if file.isDir then .ok none
    else
      let snapshot ← calls.findSnapshot
      let updates ← calls.findUpdates
      if snapshot.isSome ∨ 0 < updates.length then
        let ydoc ← rebuild p snapshot updates
        .ok (some ydoc)
      else
        calls.writeSnapshot
        .ok (some (p.seed file.content))

def joinRoom (p : Platform δ) : Join δ → Except Thrown (Option δ)
  | .creates calls => createRoom p calls
  | .finds pending => pending
  | .evicted again => joinRoom p again

/-- The count, then the id, the clock and the state of each client. -/
def encodeAwarenessUpdate (p : Platform δ) (clients : List Client) :
    Except Thrown (List UInt8) := do
  let written ← clients.mapM fun client => do
    let state ← p.stringify client.state
    .ok (writeNat client.id ++ writeNat client.clock ++ writeString state)
  .ok (writeNat clients.length ++ written.flatten)

/-- What is sent of the presence the room already has; no `catch` is around it. -/
def greet (p : Platform δ) (awareness : List Client) : Except Thrown (Option (List UInt8)) :=
  if awareness.length > 0 then (encodeAwarenessUpdate p awareness).map some else .ok none

def handleConnection (p : Platform δ) (calls : Calls δ) (user : AuthedUser) (doc : DocRef) :
    Except Thrown (Outcome δ) :=
  match assertAccess calls user.id doc.projectId .VIEWER with
  | .error (.app error) => .ok (.closed (if error.status = 403 then .Forbidden else .NotFound))
  | .error (.database _) => .ok (.closed .NotFound)
  | .ok _ => do
    match ← joinRoom p (calls.join doc) with
    | none => .ok (.closed .NotFound)
    | some ydoc => do
      let _ ← greet p (calls.awareness doc)
      .ok (.attached ydoc)

/-- The listener of the `upgrade` event, to the end of its detached promises. -/
def onUpgrade (p : Platform δ) (calls : Calls δ) (request : Request) : Outcome δ :=
  match p.newURL (request.url.getD "") with
  | .error error => .escaped error
  | .ok url =>
    if url.pathname ≠ WS_PATH then .destroyed
    else if p.handleUpgrade request = false then .destroyed
    else
      match handshake p calls request with
      | .error error => .escaped error
      | .ok (.inl code) => .closed code
      | .ok (.inr (user, doc)) =>
        match handleConnection p calls user doc with
        | .error error => .escaped error
        | .ok outcome => outcome

end CollabIDE.Collab.WsServer
