import MultiplayerCars.CPPClient.Client
import MultiplayerCars.GoServer.Admission
import MultiplayerCars.Wire.Login

/-!
# From the login to the connection

A player's program posts its `.env` file, takes the password out of the reply, and puts it into the
target of its handshake, with the UUID of its session and the colour of its car.  The texts go into
the query as they are.  They are hexadecimal digits and dashes, so the server reads what the
program meant.
-/

namespace MultiplayerCars.Wire

open Lib Lib.Json Lib.Machine CPPClient
open GoServer (OtpClock EntranceAct WsRequest WsReply entrance serveWS authenticates)

/-! ### The handshake -/

/-- The target of `m_wss.handshake`. -/
def handshakeTarget (otp uuid color : Text) : Text :=
  "/ws?otp=".toList ++ otp ++ "&uuid=".toList ++ uuid ++ "&color=".toList ++ color

/-- The request of `m_wss.handshake`, with the `Origin` that the decorator sets. -/
def handshake (otp : Text) (s : Session) : WsRequest :=
  ⟨handshakeTarget otp s.uuid.text s.currColor.text, "https://localhost:3000".toList, true⟩

lemma isBare_of_isHexDigit {c : Char} (h : isHexDigit c) : Query.isBare c := by
  have hnone : ['&', '=', ';', '%', '+'].all (fun d => !isHexDigit d) := by decide
  rw [Query.isBare, Bool.not_eq_true', ← Bool.not_eq_true, List.contains_iff_mem]
  intro hmem
  have hc := List.all_eq_true.mp hnone c hmem
  rw [h] at hc
  cases hc

lemma bare_uuid (u : UuidV4) : u.text.all Query.isBare := by
  refine List.all_eq_true.mpr fun c hc => ?_
  rcases u.mem_cases hc with h | rfl
  · exact isBare_of_isHexDigit h
  · decide

lemma bare_color (k : HexColor) : k.text.all Query.isBare :=
  List.all_eq_true.mpr fun c hc => isBare_of_isHexDigit (List.all_eq_true.mp k.digits c hc)

/-- Parameters with a name and an equality sign before each make up a query. -/
lemma append_eq_printQuery {path n₁ n₂ n₃ p₁ p₂ p₃ : Text} (v₁ v₂ v₃ : Text)
    (h₁ : p₁ = path ++ '?' :: (n₁ ++ ['='])) (h₂ : p₂ = '&' :: (n₂ ++ ['=']))
    (h₃ : p₃ = '&' :: (n₃ ++ ['='])) : p₁ ++ v₁ ++ p₂ ++ v₂ ++ p₃ ++ v₃
      = path ++ '?' :: Query.printQuery [(n₁, v₁), (n₂, v₂), (n₃, v₃)] := by
  rw [h₁, h₂, h₃]
  simp only [Query.printQuery, List.map_cons, List.map_nil, List.intercalate_cons_cons,
    List.intercalate_singleton, List.append_assoc, List.cons_append, List.nil_append]

lemma handshakeTarget_eq (otp uuid color : Text) :
    handshakeTarget otp uuid color = "/ws".toList ++ '?' :: Query.printQuery
      [("otp".toList, otp), ("uuid".toList, uuid), ("color".toList, color)] :=
  append_eq_printQuery otp uuid color (by decide) (by decide) (by decide)

/-- The server reads what the program has written. -/
lemma query_handshake (key : UuidV4) (s : Session) :
    Query.parseQuery (Query.cut '?' (handshake key.text s).target).2 =
      [("otp".toList, key.text), ("uuid".toList, s.uuid.text),
        ("color".toList, s.currColor.text)] := by
  rw [handshake, handshakeTarget_eq, Query.cut_append (by decide)]
  refine Query.parseQuery_printQuery (by simp) fun p hp => ?_
  simp only [List.mem_cons, List.not_mem_nil, or_false] at hp
  rcases hp with rfl | rfl | rfl
  · exact ⟨(by decide : "otp".toList.all Query.isBare), bare_uuid key⟩
  · exact ⟨(by decide : "uuid".toList.all Query.isBare), bare_uuid s.uuid⟩
  · exact ⟨(by decide : "color".toList.all Query.isBare), bare_color s.currColor⟩

lemma param_handshake (key : UuidV4) (s : Session) (name : Text) :
    (handshake key.text s).param name = Query.get [("otp".toList, key.text),
      ("uuid".toList, s.uuid.text), ("color".toList, s.currColor.text)] name := by
  rw [WsRequest.param, query_handshake]

lemma otp_handshake (key : UuidV4) (s : Session) : (handshake key.text s).otp = key.text := by
  rw [WsRequest.otp, param_handshake]
  rfl

lemma uuidStr_handshake (key : UuidV4) (s : Session) :
    (handshake key.text s).uuidStr = s.uuid.text := by
  rw [WsRequest.uuidStr, param_handshake]
  rfl

lemma colorStr_handshake (key : UuidV4) (s : Session) :
    (handshake key.text s).colorStr = s.currColor.text := by
  rw [WsRequest.colorStr, param_handshake]
  rfl

lemma uuid_ne_nil (u : UuidV4) : u.text ≠ [] := by
  intro h
  have hlen := u.length
  rw [h] at hlen
  cases hlen

lemma complete_handshake (key : UuidV4) (s : Session) : (handshake key.text s).Complete := by
  refine ⟨?_, ?_, fun h => ?_⟩
  · rw [otp_handshake]
    exact uuid_ne_nil key
  · rw [uuidStr_handshake]
    exact uuid_ne_nil s.uuid
  · have hlen := s.currColor.length
    rw [colorStr_handshake] at h
    rw [h] at hlen
    cases hlen

/-- The decorator sets the one `Origin` that `checkOrigin` allows. -/
lemma upgrades_handshake (otp : Text) (s : Session) : (handshake otp s).upgrades := by
  rw [WsRequest.upgrades, handshake, GoServer.checkOrigin, beq_self_eq_true]
  rfl

/-! ### From the login on -/

/-- The program gets the password that the server has issued to it. -/
lemma login_eq_session {parse : Text → Except JsonException Json} (hparse : ReadsMember parse)
    {env : Option Text} {authJson : Json} (henv : readEnv parse env = .ok authJson)
    {dump : Json → Text} {decode : Text → Except Text (Text × Text)} {creds : Text × Text}
    (hbody : decode (dump authJson) = .ok creds) (hcreds : authenticates (some creds))
    (key : UuidV4) :
    login (postRequestPassword parse dump env fun body => loginHandler (decode body) key.text)
      = .session key.text := by
  have hok : postRequestPassword parse dump env
      (fun body => loginHandler (decode body) key.text) = .ok (key.text, 200) := by
    refine (postRequestPassword_eq_ok henv).mpr ?_
    rw [captureOtp_toOption, hbody, loginHandler, if_pos hcreds]
    exact ⟨otpOf_reply hparse key.text, rfl⟩
  rw [hok, login, if_pos ⟨rfl, uuid_ne_nil key⟩]

/-- A key that is issued now has not been spent before. -/
lemma not_spent_of_login {retentionPeriod start : ℕ} {l : List (OtpClock × EntranceAct)}
    {s s' : OtpClock} (h : (entrance retentionPeriod start).Exec l s) {creds : Text × Text}
    (hcreds : authenticates (some creds)) {key : Text} {now : ℕ}
    (hs : (entrance retentionPeriod start).step s (.login (some creds) key now) = some s') :
    ¬ GoServer.Spent l key := by
  intro hspent
  have hr := GoServer.recorded_of_exec (GoServer.ops_exec h)
  have hissued := hr.accepted key (GoServer.accepted_ops.mpr hspent)
  simp only [entrance, GoServer.entranceStep, hcreds, if_true] at hs
  obtain ⟨-, hop⟩ := Option.ite_none_right_eq_some.mp hs
  simp only [OtpClock.op, List.contains_iff_mem, hissued, if_true] at hop
  cases hop

/-- **From the login to the connection.**  A program whose `.env` file has the right user name and
password gets a password into its session; and if it presents it within the period, and nobody else
has presented it, the handshake makes a client, with the UUID and the colour of the session,
whatever other logins, requests and ticks there have been.  The parser is any that reads the reply
as JSON. -/
theorem player_admitted {retentionPeriod start : ℕ} {l₁ l₂ : List (OtpClock × EntranceAct)}
    {s₀ s : OtpClock} {creds : Text × Text} {key : UuidV4} {created now : ℕ}
    (h : (entrance retentionPeriod start).Exec
      (l₁ ++ (s₀, .login (some creds) key.text created) :: l₂) s)
    (hcreds : authenticates (some creds))
    (hsole : ∀ x ∈ l₂, ∀ r t, x.2 = .serveWS r t → r.otp ≠ key.text)
    (hnow : s.now ≤ now) (hin : now ≤ created + retentionPeriod)
    {parse : Text → Except JsonException Json} (hparse : ReadsMember parse)
    {env : Option Text} {authJson : Json} (henv : readEnv parse env = .ok authJson)
    {dump : Json → Text} {decode : Text → Except Text (Text × Text)}
    (hbody : decode (dump authJson) = .ok creds) (session : Session) :
    login (postRequestPassword parse dump env fun body => loginHandler (decode body) key.text)
        = .session key.text ∧
      ∃ s', serveWS retentionPeriod s (handshake key.text session) now
        = some (.client session.uuid.text session.currColor.text, s') := by
  refine ⟨login_eq_session hparse henv hbody hcreds key, ?_⟩
  have hr := GoServer.recorded_of_exec (GoServer.ops_exec h)
  have hlogged : GoServer.LoggedIn (l₁ ++ (s₀, .login (some creds) key.text created) :: l₂)
      key.text created := ⟨(s₀, _), by simp, some creds, rfl, hcreds⟩
  have hunspent : ¬ GoServer.Spent (l₁ ++ (s₀, .login (some creds) key.text created) :: l₂)
      key.text := by
    rintro ⟨x, hx, r, t, hact, hc, hkey, hgood⟩
    obtain ⟨hl₁, s₁, hs₁⟩ := h.before
    rcases List.mem_append.mp hx with hx | hx
    · exact not_spent_of_login hl₁ hcreds hs₁ ⟨x, hx, r, t, hact, hc, hkey, hgood⟩
    · rcases List.mem_cons.mp hx with rfl | hx
      · cases hact
      · exact hsole x hx r t hact hkey
  have hgood := (GoServer.verifyOTP_iff h key.text).mpr ⟨created,
    (hr.past _ _ (GoServer.issuedAt_ops.mpr hlogged)).2, hlogged, hunspent, fun t ht =>
      ((hr.ticked t (GoServer.tickedAt_ops.mpr ht)).trans hnow).trans hin⟩
  refine (GoServer.client_iff (otp_handshake key session ▸ iff_true_intro hgood) _ _).mpr ?_
  exact ⟨⟨(uuidStr_handshake key session).symm, (colorStr_handshake key session).symm⟩, hnow,
    complete_handshake key session, upgrades_handshake _ session, trivial⟩

/-! ### A player -/

/-- The members of an `.env` file. -/
def envFields : Object :=
  [⟨"username".toList, quote (GoServer.encodeString "hill".toList)⟩,
    ⟨"password".toList, quote (GoServer.encodeString "1995".toList)⟩]

/-- What `dump` makes of it, with the members in the order of their keys. -/
def dumpEnv (_ : Json) : Text := printObject envFields.reverse

/-- What the server makes of that. -/
def decodeEnv (body : Text) : Except Text (Text × Text) :=
  if body = dumpEnv .null then .ok ("hill".toList, "1995".toList) else .error []

lemma readEnv_envFields : ∃ authJson, readEnv parseJson (some (printObject envFields)) =
    .ok authJson := by
  have hfield : ∀ f ∈ envFields, DomField f := by
    intro f hf
    simp only [envFields, List.mem_cons, List.not_mem_nil, or_false] at hf
    rcases hf with rfl | rfl
    · exact domField_encodeString (by decide) _
    · exact domField_encodeString (by decide) _
  have hvalue : DomValue (printObject envFields) :=
    domValue_nil.append (domValue_printMembers hfield) (c := '{') (by decide) (by decide)
  rw [readEnv, parseJson, if_pos (List.all_eq_true.mpr hvalue.lits),
    parseObject_printObject fun f hf => (hfield f hf).wf]
  exact ⟨_, rfl⟩

theorem player_admitted_someUuid :
    login (postRequestPassword parseJson dumpEnv (some (printObject envFields)) fun body =>
        loginHandler (decodeEnv body) someUuid.text) = .session someUuid.text ∧
      ∃ s s', (entrance GoServer.retentionPeriod 0).Reachable s ∧
        serveWS GoServer.retentionPeriod s
          (handshake someUuid.text (Session.start someUuid defaultColor)) 100
          = some (.client someUuid.text defaultColor.text, s') := by
  have hlogin : (entrance GoServer.retentionPeriod 0).step
      (entrance GoServer.retentionPeriod 0).init
      (.login (some ("hill".toList, "1995".toList)) someUuid.text 0)
      = some ⟨[⟨someUuid.text, 0⟩], [someUuid.text], 0, true, 0⟩ := by rfl
  have hexec := Exec.nil.snoc hlogin
  obtain ⟨authJson, henv⟩ := readEnv_envFields
  have hbody : decodeEnv (dumpEnv authJson) = .ok ("hill".toList, "1995".toList) := if_pos rfl
  have hin : 100 ≤ 0 + GoServer.retentionPeriod := by decide
  obtain ⟨hsession, s', hserve⟩ := player_admitted hexec (by decide) (by simp) (Nat.zero_le _) hin
    readsMember_parseJson henv hbody (Session.start someUuid defaultColor)
  exact ⟨hsession, _, s', ⟨_, hexec⟩, hserve⟩

end MultiplayerCars.Wire
