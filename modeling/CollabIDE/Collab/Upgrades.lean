import CollabIDE.Collab.WsServer
/-!
# Where an upgrade request ends

What escapes the door: an unparsable request target, an undecodable session
cookie, a failure of a database call that no `catch` is around, and presence that
cannot be written.
-/

namespace CollabIDE.Collab.WsServer

open CollabIDE.Auth.Authorize CollabIDE.Http.Cookies CollabIDE.Http.Errors
open CollabIDE.Projects.MemberTable CollabIDE.Shared.Protocol

variable {δ α β : Type}

/-- Neither an exception nor a rejection. -/
def Fulfilled (x : Except Thrown α) : Prop := ∃ a, x = .ok a

@[simp] theorem fulfilled_ok (a : α) : Fulfilled (.ok a : Except Thrown α) := ⟨a, rfl⟩

@[simp] theorem not_fulfilled_error (error : Thrown) :
    ¬ Fulfilled (.error error : Except Thrown α) :=
  fun ⟨_, h⟩ => by cases h

theorem fulfilled_bind {x : Except Thrown α} {f : α → Except Thrown β} :
    Fulfilled (x >>= f) ↔ ∃ a, x = .ok a ∧ Fulfilled (f a) := by
  cases x with
  | error error => exact ⟨fun ⟨_, h⟩ => (by cases h), fun ⟨_, h, _⟩ => (by cases h)⟩
  | ok a =>
      constructor
      · exact fun h => ⟨a, rfl, h⟩
      · rintro ⟨b, ⟨⟩, h⟩
        exact h

/-- The raw socket destroyed, the WebSocket closed with an application close
code, or the connection attached to a room. -/
def Outcome.Ends (outcome : Outcome δ) : Prop :=
  outcome = .destroyed ∨ (∃ code, outcome = .closed code) ∨ ∃ ydoc, outcome = .attached ydoc

@[simp] theorem ends_destroyed : (.destroyed : Outcome δ).Ends := Or.inl rfl

@[simp] theorem ends_closed (code : CloseCode) : (.closed code : Outcome δ).Ends :=
  Or.inr (Or.inl ⟨code, rfl⟩)

@[simp] theorem ends_attached (ydoc : δ) : (.attached ydoc : Outcome δ).Ends :=
  Or.inr (Or.inr ⟨ydoc, rfl⟩)

@[simp] theorem not_ends_escaped (error : Thrown) : ¬ (.escaped error : Outcome δ).Ends := by
  rintro (h | ⟨_, h⟩ | ⟨_, h⟩) <;> cases h

/-! ## The condition -/

/-- Every database call this `createRoom` gets to answers, and stored updates
decode. -/
def CreateCalls.Answered (p : Platform δ) (calls : CreateCalls) : Prop :=
  ∃ file, calls.findFirst = .ok file ∧ ∀ content, file = some ⟨content, false⟩ →
    ∃ snapshot updates, calls.findSnapshot = .ok snapshot ∧ calls.findUpdates = .ok updates ∧
      if snapshot.isSome ∨ 0 < updates.length then Fulfilled (rebuild p snapshot updates)
      else calls.writeSnapshot = .ok ()

/-- No room that `joinRoom` awaits fails to be created. -/
def Join.Answered (p : Platform δ) : Join δ → Prop
  | .creates calls => calls.Answered p
  | .finds pending => Fulfilled pending
  | .evicted again => again.Answered p

/-- There is a room to join: the file is there and is no directory. -/
def Join.Opens : Join δ → Prop
  | .creates calls => ∃ content, calls.findFirst = .ok (some ⟨content, false⟩)
  | .finds pending => ∃ ydoc, pending = .ok (some ydoc)
  | .evicted again => again.Opens

/-- The state of every client can be written. -/
def Writable (p : Platform δ) (awareness : List Client) : Prop :=
  ∀ client ∈ awareness, Fulfilled (p.stringify client.state)

/-- The room can be joined and its presence written, if there is one. -/
def RoomAnswered (p : Platform δ) (calls : Calls δ) (doc : DocRef) : Prop :=
  (calls.join doc).Answered p ∧ ((calls.join doc).Opens → Writable p (calls.awareness doc))

/-- The request is an upgrade on the endpoint, from no foreign origin, and asks
for this document. -/
structure AsksFor (p : Platform δ) (request : Request) (url : Url) (doc : DocRef) : Prop where
  path : url.pathname = WS_PATH
  upgraded : p.handleUpgrade request = true
  origin : request.origin.any (· ≠ p.webOrigin) = false
  doc : parseDocId ((url.get WS_DOC_PARAM).getD "") = some doc

/-- If the token verifies, the user lookup answers; and if it finds a user with a
role in the project, the room answers. -/
def TokenAnswered (p : Platform δ) (calls : Calls δ) (doc : DocRef) (token : String) : Prop :=
  ∀ claims, token ≠ "" → verifyToken p token = .ok claims →
    ∃ user, calls.findUser claims.userId = .ok user ∧
      ∀ u, user = some u → ∀ role, calls.findMember u.id doc.projectId = .ok (some role) →
        RoomAnswered p calls doc

/-- The value of the session cookie decodes, to a token that is answered. -/
def CookieAnswered (p : Platform δ) (calls : Calls δ) (request : Request) (doc : DocRef) : Prop :=
  ∀ raw, rawCookie request.cookie SESSION_COOKIE = some raw →
    ∃ token, decodeURIComponent raw = some token ∧ TokenAnswered p calls doc token

/-- The request target parses, and if it asks for a document its cookie is
answered. -/
def Unbroken (p : Platform δ) (calls : Calls δ) (request : Request) : Prop :=
  ∃ url, p.newURL (request.url.getD "") = .ok url ∧
    ∀ doc, AsksFor p request url doc → CookieAnswered p calls request doc

/-! ## From the rooms back to the request -/

theorem fulfilled_createRoom (p : Platform δ) (calls : CreateCalls) :
    Fulfilled (createRoom p calls) ↔ calls.Answered p := by
  rw [createRoom, fulfilled_bind, CreateCalls.Answered]
  refine exists_congr fun file => and_congr_right fun _ => ?_
  rcases file with - | ⟨content, isDir⟩
  · simp
  cases isDir with
  | true => simp
  | false =>
      simp only [Bool.false_eq_true, if_false, fulfilled_bind, Option.some.injEq, FileRow.mk.injEq,
        and_true, forall_eq', ← exists_and_left]
      refine exists_congr fun snapshot => exists_congr fun updates =>
        and_congr_right fun _ => and_congr_right fun _ => ?_
      by_cases hstored : snapshot.isSome ∨ 0 < updates.length
      · simp only [if_pos hstored, fulfilled_bind, fulfilled_ok, and_true]
        exact Iff.rfl
      · simp only [if_neg hstored, fulfilled_bind, fulfilled_ok, and_true]
        exact ⟨fun ⟨_, h⟩ => h, fun h => ⟨(), h⟩⟩

theorem fulfilled_joinRoom (p : Platform δ) (join : Join δ) :
    Fulfilled (joinRoom p join) ↔ join.Answered p := by
  induction join with
  | creates calls => exact fulfilled_createRoom p calls
  | finds pending => exact Iff.rfl
  | evicted again ih => exact ih

theorem createRoom_eq_some_iff {p : Platform δ} {calls : CreateCalls} (h : calls.Answered p) :
    (∃ ydoc, createRoom p calls = .ok (some ydoc)) ↔
      ∃ content, calls.findFirst = .ok (some ⟨content, false⟩) := by
  obtain ⟨room, hroom⟩ := (fulfilled_createRoom p calls).mpr h
  obtain ⟨file, hfile, hloaded⟩ := h
  simp only [hfile, Except.ok.injEq]
  rcases file with - | ⟨content, isDir⟩
  · simp [createRoom, hfile, bind, Except.bind]
  cases isDir with
  | true => simp [createRoom, hfile, bind, Except.bind]
  | false =>
      obtain ⟨snapshot, updates, hsnapshot, hupdates, hrest⟩ := hloaded content rfl
      refine iff_of_true ?_ ⟨content, rfl⟩
      by_cases hstored : snapshot.isSome ∨ 0 < updates.length
      · rw [if_pos hstored] at hrest
        obtain ⟨ydoc, hydoc⟩ := hrest
        exact ⟨ydoc, by simp [createRoom, hfile, hsnapshot, hupdates, hstored, hydoc, bind,
          Except.bind]⟩
      · rw [if_neg hstored] at hrest
        exact ⟨p.seed content, by
          simp [createRoom, hfile, hsnapshot, hupdates, hstored, hrest, bind, Except.bind]⟩

theorem joinRoom_eq_some_iff {p : Platform δ} {join : Join δ} (h : join.Answered p) :
    (∃ ydoc, joinRoom p join = .ok (some ydoc)) ↔ join.Opens := by
  induction join with
  | creates calls => exact createRoom_eq_some_iff h
  | finds pending => exact Iff.rfl
  | evicted again ih => exact ih h

theorem fulfilled_mapM {f : α → Except Thrown β} {as : List α} :
    Fulfilled (as.mapM f) ↔ ∀ a ∈ as, Fulfilled (f a) := by
  induction as with
  | nil => simp [pure, Except.pure]
  | cons a as ih =>
      rw [List.mapM_cons, fulfilled_bind, List.forall_mem_cons, ← ih]
      constructor
      · rintro ⟨b, hb, hrest⟩
        obtain ⟨bs, hbs, -⟩ := fulfilled_bind.mp hrest
        exact ⟨⟨b, hb⟩, bs, hbs⟩
      · rintro ⟨⟨b, hb⟩, bs, hbs⟩
        exact ⟨b, hb, fulfilled_bind.mpr ⟨bs, hbs, fulfilled_ok _⟩⟩

theorem fulfilled_encodeAwarenessUpdate (p : Platform δ) (awareness : List Client) :
    Fulfilled (encodeAwarenessUpdate p awareness) ↔ Writable p awareness := by
  rw [encodeAwarenessUpdate, fulfilled_bind]
  simp only [fulfilled_ok, and_true]
  rw [← Fulfilled, fulfilled_mapM]
  refine forall₂_congr fun client _ => ?_
  rw [fulfilled_bind]
  simp only [fulfilled_ok, and_true]
  exact Iff.rfl

theorem fulfilled_greet (p : Platform δ) (awareness : List Client) :
    Fulfilled (greet p awareness) ↔ Writable p awareness := by
  rw [← fulfilled_encodeAwarenessUpdate, greet]
  split
  · cases encodeAwarenessUpdate p awareness with
    | error error => simp [Except.map]
    | ok payload => simp [Except.map]
  next hnone =>
    obtain rfl : awareness = [] := List.length_eq_zero_iff.mp (Nat.eq_zero_of_not_pos hnone)
    exact iff_of_true (fulfilled_ok _) (fulfilled_ok _)

theorem hasRole_viewer (role : Role) : hasRole role .VIEWER = true := by
  cases role <;> rfl

/-- A membership read that fails closes the socket; a failure to create the room
or to greet escapes. -/
theorem handleConnection_ends_iff (p : Platform δ) (calls : Calls δ) (user : AuthedUser)
    (doc : DocRef) :
    (∃ outcome, handleConnection p calls user doc = .ok outcome ∧ outcome.Ends) ↔
      ∀ role, calls.findMember user.id doc.projectId = .ok (some role) →
        RoomAnswered p calls doc := by
  rcases hmember : calls.findMember user.id doc.projectId with error | ( - | role)
  · simp [handleConnection, assertAccess, hmember]
  · simp [handleConnection, assertAccess, hmember]
  have haccess : assertAccess calls user.id doc.projectId .VIEWER = .ok role := by
    simp [assertAccess, hmember, hasRole_viewer]
  rw [handleConnection, haccess]
  simp only [Except.ok.injEq, Option.some.injEq, forall_eq', RoomAnswered]
  by_cases hanswered : (calls.join doc).Answered p
  · rw [and_iff_right hanswered, ← joinRoom_eq_some_iff hanswered]
    obtain ⟨room, hroom⟩ := (fulfilled_joinRoom p (calls.join doc)).mpr hanswered
    rw [hroom]
    cases room with
    | none => simp [bind, Except.bind]
    | some ydoc =>
        rw [← fulfilled_greet]
        cases greet p (calls.awareness doc) with
        | error error => simp [bind, Except.bind]
        | ok sent => simp [bind, Except.bind]
  · have hfailed := mt (fulfilled_joinRoom p (calls.join doc)).mp hanswered
    cases hroom : joinRoom p (calls.join doc) with
    | error error => simp [bind, Except.bind, hanswered]
    | ok room => exact absurd ⟨room, hroom⟩ hfailed

/-! ## The whole path -/

section Asked

variable {p : Platform δ} {calls : Calls δ} {request : Request} {url : Url} {doc : DocRef}

theorem handshake_eq (hurl : p.newURL (request.url.getD "") = .ok url)
    (hasks : AsksFor p request url doc) :
    handshake p calls request = (do
      let token ← readCookie request.cookie SESSION_COOKIE
      let user ← token.elim (.ok none) (authenticateToken p calls)
      user.elim (.ok (.inl .Unauthenticated)) fun user => .ok (.inr (user, doc))) := by
  have horigin := Bool.eq_false_iff.mp hasks.origin
  simp only [handshake, if_neg horigin, hurl, hasks.doc, bind, Except.bind]
  cases readCookie request.cookie SESSION_COOKIE with
  | error error => rfl
  | ok token =>
      cases token with
      | none => rfl
      | some token =>
          rcases h : authenticateToken p calls token with error | ( - | user)
          · simp only [h, Option.elim_some]
          · simp only [h, Option.elim_some, Option.elim_none]
          · simp only [h, Option.elim_some]

theorem ends_of_not_asking (hurl : p.newURL (request.url.getD "") = .ok url)
    (hasks : ∀ doc, ¬ AsksFor p request url doc) : (onUpgrade p calls request).Ends := by
  rw [onUpgrade, hurl]
  by_cases hpath : url.pathname ≠ WS_PATH
  · simp [hpath]
  by_cases hupgrade : p.handleUpgrade request = false
  · simp [hupgrade]
  have hclosed : handshake p calls request = .ok (.inl .BadRequest) := by
    by_cases horigin : request.origin.any (· ≠ p.webOrigin) = true
    · exact if_pos horigin
    · cases hdoc : parseDocId ((url.get WS_DOC_PARAM).getD "") with
      | none => simp [handshake, hurl, hdoc, bind, Except.bind]
      | some doc =>
          exact absurd ⟨not_not.mp hpath, Bool.not_eq_false _ ▸ hupgrade,
            Bool.eq_false_iff.mpr horigin, hdoc⟩ (hasks doc)
  simp [hpath, hupgrade, hclosed]

theorem ends_of_token (hasks : AsksFor p request url doc)
    (hurl : p.newURL (request.url.getD "") = .ok url) {token : String}
    (htoken : readCookie request.cookie SESSION_COOKIE = .ok (some token)) :
    (onUpgrade p calls request).Ends ↔ TokenAnswered p calls doc token := by
  have hshake : handshake p calls request = _ := handshake_eq hurl hasks
  simp only [htoken, bind, Except.bind, Option.elim_some] at hshake
  rw [onUpgrade, hurl, TokenAnswered]
  simp only [hasks.path, hasks.upgraded, ne_eq, not_true_eq_false, if_false, Bool.true_eq_false]
  by_cases hempty : token = ""
  · simp [hshake, authenticateToken, hempty]
  cases hverify : verifyToken p token with
  | error error => simp [hshake, authenticateToken, hempty, hverify]
  | ok claims =>
      rcases huser : calls.findUser claims.userId with error | ( - | user)
      · simp [hshake, authenticateToken, hempty, hverify, huser]
      · simp [hshake, authenticateToken, hempty, hverify, huser]
      · have hconnection := handleConnection_ends_iff p calls user doc
        simp only [hshake, authenticateToken, hempty, hverify, huser, if_false,
          not_false_eq_true, true_implies, Except.ok.injEq, forall_eq', exists_eq_left',
          Option.some.injEq, Option.elim_some]
        rw [← hconnection]
        rcases handleConnection p calls user doc with error | outcome
        · simp
        · simp

theorem ends_of_asking (hurl : p.newURL (request.url.getD "") = .ok url)
    (hasks : AsksFor p request url doc) :
    (onUpgrade p calls request).Ends ↔ CookieAnswered p calls request doc := by
  have hcookie := readCookie_eq request.cookie SESSION_COOKIE
  have hshake : handshake p calls request = _ := handshake_eq hurl hasks
  rw [CookieAnswered]
  cases hraw : rawCookie request.cookie SESSION_COOKIE with
  | none =>
      rw [hraw] at hcookie
      simp only [hcookie, bind, Except.bind, Option.elim_none] at hshake
      simp [onUpgrade, hurl, hasks.path, hasks.upgraded, hshake]
  | some raw =>
      cases hdecoded : decodeURIComponent raw with
      | none =>
          simp only [hraw, hdecoded] at hcookie
          simp only [hcookie, bind, Except.bind] at hshake
          simp [onUpgrade, hurl, hasks.path, hasks.upgraded, hshake, hdecoded]
      | some token =>
          simp only [hraw, hdecoded] at hcookie
          rw [ends_of_token hasks hurl hcookie]
          simp [hdecoded]

end Asked

/-- The path of a request ends where it should exactly if nothing on it breaks. -/
theorem onUpgrade_ends_iff (p : Platform δ) (calls : Calls δ) (request : Request) :
    (onUpgrade p calls request).Ends ↔ Unbroken p calls request := by
  cases hurl : p.newURL (request.url.getD "") with
  | error error => simp [onUpgrade, Unbroken, hurl]
  | ok url =>
      simp only [Unbroken, hurl, Except.ok.injEq, exists_eq_left']
      by_cases hasks : ∃ doc, AsksFor p request url doc
      · obtain ⟨doc, hasks⟩ := hasks
        rw [ends_of_asking hurl hasks]
        refine ⟨fun h doc' hdoc' => ?_, fun h => h doc hasks⟩
        exact Option.some.inj (hasks.doc.symm.trans hdoc'.doc) ▸ h
      · have hnone : ∀ doc, ¬ AsksFor p request url doc := fun doc h => hasks ⟨doc, h⟩
        exact iff_of_true (ends_of_not_asking hurl hnone) fun doc h => absurd h (hnone doc)

/-- A session cookie that ends in a lone `%`. -/
theorem not_onUpgrade_ends_percentCookie :
    ¬ ∀ (p : Platform String) (calls : Calls String) (request : Request),
      (onUpgrade p calls request).Ends := by
  intro hclaim
  have hends := hclaim
    { newURL := fun target =>
        if target = "/ws?doc=p:f" then .ok ⟨"/ws", [("doc", "p:f")]⟩
        else .error "TypeError: Invalid URL"
      handleUpgrade := fun _ => true
      jwtVerify := fun _ => .error "JWSInvalid: Invalid Compact JWS"
      webOrigin := "http://localhost:5173"
      applyUpdate := fun ydoc _ => .ok ydoc
      emptyDoc := ""
      seed := fun content => content
      stringify := fun _ => .ok "{}" }
    { findUser := fun _ => .ok none
      findMember := fun _ _ => .ok none
      join := fun _ => .finds (.ok none)
      awareness := fun _ => [] }
    ⟨some "/ws?doc=p:f", none, some "ce_session=%"⟩
  have hescaped : ∀ outcome : Outcome String,
      outcome = .escaped "URIError: URI malformed" → ¬ outcome.Ends :=
    fun _ h => h ▸ not_ends_escaped _
  exact hescaped _ rfl hends

end CollabIDE.Collab.WsServer
