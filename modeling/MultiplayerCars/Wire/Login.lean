import MultiplayerCars.GoServer.Otp
import MultiplayerCars.Wire.Messages

/-!
# The login

`PostRequestPassword` reads the reply to the login inside a `try` whose only `catch` is for
`std::out_of_range`.  What nlohmann/json throws is of other classes: the text is no JSON, the root
is no object or has no `"otp"`, the member is no string.  So every reply but the one that admits the
player leaves the function by an exception that nobody catches, and the client ends in
`std::terminate` where `main` has a branch for it.
-/

namespace MultiplayerCars.Wire

open Lib.Json CPPClient
open GoServer (authenticates encodeString decodeStr_encodeString isValue_encodeString)

/-! ### nlohmann/json -/

/-- What nlohmann/json throws, by class. -/
inductive JsonException
  | parseError | typeError | outOfRange
deriving DecidableEq, Repr

/-- What a call can throw: an exception of nlohmann/json, or `std::out_of_range`, from which none of
those derives. -/
inductive Exception
  | json (e : JsonException)
  | outOfRange
deriving DecidableEq, Repr

/-- A JSON value, as far as the login looks at it. -/
inductive Json
  | null
  | string (s : Text)
  | object (members : List (Text × Json))
  | other

/-- `at`: of an object its member, or `out_of_range`; of anything else `type_error`. -/
def Json.at : Json → Text → Except JsonException Json
  | .object members, key =>
    match members.find? fun m => m.1 == key with
    | some m => .ok m.2
    | none => .error .outOfRange
  | _, _ => .error .typeError

/-- The conversion to `std::string`. -/
def Json.toStdString : Json → Except JsonException Text
  | .string s => .ok s
  | _ => .error .typeError

/-- The member of an object, if it is a string. -/
def Json.stringAt : Json → Text → Option Text
  | .object members, key =>
    match members.find? fun m => m.1 == key with
    | some (_, .string s) => some s
    | _ => none
  | _, _ => none

/-! ### The client -/

/-- A `cpr::Response`; its status is 0 when there was none. -/
structure Response where
  status : ℕ
  text : Text
deriving DecidableEq, Repr

section

variable (parse : Text → Except JsonException Json) (dump : Json → Text)

/-- The `.env` file, when there is one. -/
def readEnv (env : Option Text) : Except JsonException Json :=
  match env with
  | some file => parse file
  | none => .ok .null

/-- The body of the `try`. -/
def captureOtp (r : Response) : Except JsonException Text :=
  if r.status ≠ 0 then do
    let otpJson ← parse r.text
    let otp ← otpJson.at "otp".toList
    otp.toStdString
  else .ok []

/-- The clause `catch (std::out_of_range& e)`, after which the string is still empty. -/
def catchOutOfRange (x : Except Exception Text) : Except Exception Text :=
  match x with
  | .error .outOfRange => .ok []
  | _ => x

/-- `PostRequestPassword`: what it returns and the status code, or what it throws. -/
def postRequestPassword (env : Option Text) (post : Text → Response) :
    Except Exception (Text × ℕ) := do
  let authJson ← (readEnv parse env).mapError .json
  let r := post (dump authJson)
  let otpCapture ← catchOutOfRange ((captureOtp parse r).mapError .json)
  return (otpCapture, r.status)

end

/-- How the login ends: in the branch of the session, in the branch that prints the status code, or
in `std::terminate`. -/
inductive LoginEnd
  | session (otp : Text)
  | couldNotLogin (statusCode : ℕ)
  | terminated
deriving DecidableEq, Repr

/-- `main`, from the call on. -/
def login : Except Exception (Text × ℕ) → LoginEnd
  | .ok (otp, statusCode) =>
    if statusCode = 200 ∧ otp ≠ [] then .session otp else .couldNotLogin statusCode
  | .error _ => .terminated

/-- What `"otp"` is in a text, if that is a JSON object in which it is a string. -/
def otpOf (parse : Text → Except JsonException Json) (text : Text) : Option Text :=
  match parse text with
  | .ok json => json.stringAt "otp".toList
  | .error _ => none

/-- The call returns, with the status code of the reply and with its password if it has one, and
`main` goes on. -/
structure LoginSafe (parse : Text → Except JsonException Json) (r : Response)
    (result : Except Exception (Text × ℕ)) : Prop where
  returns : result = .ok ((otpOf parse r.text).getD [], r.status)
  goesOn : login result ≠ .terminated

/-! ### When the call returns -/

lemma at_toStdString (json : Json) (key : Text) :
    (json.at key >>= Json.toStdString).toOption = json.stringAt key := by
  cases json with
  | object members =>
    rw [Json.at, Json.stringAt]
    cases members.find? fun m => m.1 == key with
    | none => rfl
    | some m =>
      obtain ⟨k, v⟩ := m
      cases v <;> rfl
  | null => rfl
  | string s => rfl
  | other => rfl

/-- The body of the `try` gets to its end if there is no reply, or the reply has a password. -/
lemma captureOtp_toOption (parse : Text → Except JsonException Json) (r : Response) :
    (captureOtp parse r).toOption = if r.status = 0 then some [] else otpOf parse r.text := by
  by_cases hstatus : r.status = 0
  · rw [captureOtp, if_neg (not_not.mpr hstatus), if_pos hstatus]
    rfl
  · rw [captureOtp, if_pos hstatus, if_neg hstatus, otpOf]
    cases parse r.text with
    | error e => rfl
    | ok json => exact at_toStdString json _

/-- No exception of nlohmann/json is caught. -/
lemma catchOutOfRange_mapError (x : Except JsonException Text) :
    catchOutOfRange (x.mapError .json) = x.mapError .json := by
  cases x <;> rfl

/-- The call returns exactly if the body of the `try` gets to its end. -/
lemma postRequestPassword_eq_ok {parse : Text → Except JsonException Json} {dump : Json → Text}
    {env : Option Text} {authJson : Json} (henv : readEnv parse env = .ok authJson)
    {post : Text → Response} {otp : Text} {statusCode : ℕ} :
    postRequestPassword parse dump env post = .ok (otp, statusCode) ↔
      (captureOtp parse (post (dump authJson))).toOption = some otp ∧
        statusCode = (post (dump authJson)).status := by
  have hcall : postRequestPassword parse dump env post = (do
      let otpCapture ← catchOutOfRange ((captureOtp parse (post (dump authJson))).mapError .json)
      return (otpCapture, (post (dump authJson)).status)) := by
    rw [postRequestPassword, henv]
    rfl
  rw [hcall, catchOutOfRange_mapError]
  cases captureOtp parse (post (dump authJson)) with
  | error e => simp [Except.mapError, bind, Except.bind, Except.toOption]
  | ok otp' =>
    simp [Except.mapError, bind, Except.bind, Except.toOption, pure, Except.pure, eq_comm]

lemma login_ne_terminated {result : Except Exception (Text × ℕ)} {otp : Text} {statusCode : ℕ}
    (h : result = .ok (otp, statusCode)) : login result ≠ .terminated := by
  rw [h, login]
  split_ifs <;> simp

/-- **When the login does not crash, exactly.**  With no `.env` file or one that is JSON,
`PostRequestPassword` returns what it should and `main` goes on if and only if there is a reply and
its body is a JSON object with a string `"otp"`, or there is no reply and no password in it. -/
theorem login_safe_iff {parse : Text → Except JsonException Json} {dump : Json → Text}
    {env : Option Text} {authJson : Json} (henv : readEnv parse env = .ok authJson)
    (post : Text → Response) :
    LoginSafe parse (post (dump authJson)) (postRequestPassword parse dump env post) ↔
      ((post (dump authJson)).status ≠ 0 ∧ (otpOf parse (post (dump authJson)).text).isSome) ∨
        ((post (dump authJson)).status = 0 ∧
          ∀ otp, otpOf parse (post (dump authJson)).text = some otp → otp = []) := by
  generalize hr : post (dump authJson) = r
  have hsafe : LoginSafe parse r (postRequestPassword parse dump env post) ↔
      (if r.status = 0 then some [] else otpOf parse r.text)
        = some ((otpOf parse r.text).getD []) := by
    rw [← captureOtp_toOption]
    constructor
    · intro h
      have hok := ((postRequestPassword_eq_ok henv).mp h.returns).1
      rwa [hr] at hok
    · intro h
      have hok : postRequestPassword parse dump env post
          = .ok ((otpOf parse r.text).getD [], (post (dump authJson)).status) :=
        (postRequestPassword_eq_ok henv).mpr ⟨by rwa [hr], rfl⟩
      rw [hr] at hok
      exact ⟨hok, login_ne_terminated hok⟩
  rw [hsafe]
  by_cases hstatus : r.status = 0
  · cases otpOf parse r.text with
    | none => simp [hstatus]
    | some otp => simp [hstatus, eq_comm]
  · cases otpOf parse r.text with
    | none => simp [hstatus]
    | some otp => simp [hstatus]

/-! ### The replies of the server -/

/-- A parser for texts, like that of nlohmann/json, which throws `out_of_range` only for numbers
that no `double` can hold: those it does not look for. -/
def parseJson (s : Text) : Except JsonException Json :=
  if (lits s).all fun k => (decodeStr none k).isSome then
    match parseObject s with
    | some fs =>
      -- of two members with one key the later stays
      .ok (.object (fs.reverse.map fun f => ((decodeStr none f.key).getD [],
        ((getString f.value).map Json.string).getD .other)))
    | none =>
      if (scanValue (s.length + 1) (skipWs s)).map skipWs = some [] then .ok .other
      else .error .parseError
  else .error .parseError

/-- `loginHandler`, for a request that decodes to a user name and a password, or to an error. -/
def loginHandler (req : Except Text (Text × Text)) (otp : Text) : Response :=
  match req with
  | .error err => ⟨400, err ++ ['\n']⟩
  | .ok req =>
    if authenticates (some req) then
      ⟨200, printObject [⟨"otp".toList, quote (encodeString otp)⟩]⟩
    else ⟨401, []⟩

/-- What the reply is about to a parser: an object with one member, a string as the Go side encodes
it, under a key that needs no escape. -/
def ReadsMember (parse : Text → Except JsonException Json) : Prop :=
  ∀ k s : Text, k.all isPlain →
    parse (printObject [⟨k, quote (encodeString s)⟩]) = .ok (.object [(k, .string s)])

lemma readsMember_parseJson : ReadsMember parseJson := by
  intro k s hk
  have hfield : ∀ f ∈ ([⟨k, quote (encodeString s)⟩] : Object), DomField f := by
    intro f hf
    rw [List.mem_singleton.mp hf]
    exact domField_encodeString hk s
  have hvalue : DomValue (printObject [⟨k, quote (encodeString s)⟩]) :=
    domValue_nil.append (domValue_printMembers hfield) (c := '{') (by decide) (by decide)
  have hkey : decodeStr none k = some k := decodeStr_plain (List.all_eq_true.mp hk) none
  have hstring : getString (quote (encodeString s)) = some s := by
    rw [getString, strLit_quote (GoServer.isKey_encodeString s), Option.bind_some]
    exact decodeStr_encodeString none s
  rw [parseJson, if_pos (List.all_eq_true.mpr hvalue.lits),
    parseObject_printObject fun f hf => (hfield f hf).wf]
  simp only [List.reverse_singleton, List.map_cons, List.map_nil, hkey, hstring, Option.getD_some,
    Option.map_some]

section

variable {parse : Text → Except JsonException Json}

lemma otpOf_reply (hparse : ReadsMember parse) (otp : Text) :
    otpOf parse (printObject [⟨"otp".toList, quote (encodeString otp)⟩]) = some otp := by
  rw [otpOf, hparse "otp".toList otp (by decide)]
  simp only [Json.stringAt, List.find?_cons, beq_self_eq_true]

/-- A player with the right password gets into the session, with the password that the server has
issued. -/
theorem session_of_authenticated (hparse : ReadsMember parse) {req : Text × Text}
    (hreq : authenticates (some req)) {otp : Text} (hotp : otp ≠ []) (dump : Json → Text) :
    login (postRequestPassword parse dump none fun _ => loginHandler (.ok req) otp)
      = .session otp := by
  have hok : postRequestPassword parse dump none (fun _ => loginHandler (.ok req) otp)
      = .ok (otp, 200) := by
    refine (postRequestPassword_eq_ok rfl).mpr ?_
    rw [captureOtp_toOption, loginHandler, if_pos hreq]
    exact ⟨otpOf_reply hparse otp, rfl⟩
  rw [hok, login, if_pos ⟨rfl, hotp⟩]

/-- Any other player crashes: the body of the reply is empty, which is no JSON. -/
theorem terminated_of_refused {e : JsonException} (hparse : parse [] = .error e)
    {req : Text × Text} (hreq : authenticates (some req) = false) (dump : Json → Text)
    (otp : Text) :
    login (postRequestPassword parse dump none fun _ => loginHandler (.ok req) otp)
      = .terminated := by
  cases hcall : postRequestPassword parse dump none fun _ => loginHandler (.ok req) otp with
  | error e => rfl
  | ok result =>
    have hreply := ((postRequestPassword_eq_ok rfl).mp hcall).1
    rw [captureOtp_toOption, loginHandler, hreq, if_neg (by simp), if_neg (by simp), otpOf,
      hparse] at hreply
    cases hreply

end

/-- The text of the body that a client without an `.env` file sends. -/
def dumpNull (_ : Json) : Text := "null".toList

/-- The reply to a client without an `.env` file crashes it. -/
theorem login_crashes : ¬ ∀ (req : Except Text (Text × Text)) (otp : Text),
    LoginSafe parseJson (loginHandler req otp)
      (postRequestPassword parseJson dumpNull none fun _ => loginHandler req otp) := by
  intro h
  exact (h (.ok ([], [])) ['k']).goesOn (terminated_of_refused rfl (by decide) dumpNull ['k'])

theorem login_safe_iff_refused :
    LoginSafe parseJson (loginHandler (.ok ([], [])) ['k'])
        (postRequestPassword parseJson dumpNull none fun _ => loginHandler (.ok ([], [])) ['k']) ↔
      ((loginHandler (.ok ([], [])) ['k']).status ≠ 0 ∧
          (otpOf parseJson (loginHandler (.ok ([], [])) ['k']).text).isSome) ∨
        ((loginHandler (.ok ([], [])) ['k']).status = 0 ∧
          ∀ otp, otpOf parseJson (loginHandler (.ok ([], [])) ['k']).text = some otp →
            otp = []) := by
  have henv : readEnv parseJson none = .ok .null := rfl
  exact login_safe_iff henv fun _ => loginHandler (.ok ([], [])) ['k']

end MultiplayerCars.Wire
