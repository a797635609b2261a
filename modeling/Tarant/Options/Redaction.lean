import Tarant.Options.Address

/-!
# What settings and refusals show

Settings are printed without their password.  A refused URL is answered with a message that
quotes what was refused: the whole URL when its host is, and otherwise the text of the user or
of the password, as it stands in the URL.
-/

namespace Tarant

/-! ## `Debug` in the standard library -/

/-- `PadAdapter`: four spaces in front of every line. -/
def padLines : Bool → List Char → List Char
  | _, [] => []
  | onNewline, c :: rest =>
      (if onNewline then "    ".toList else []) ++ c :: padLines (c == '\n') rest

def indented (s : String) : String := String.ofList (padLines true s.toList)

/-- A struct with named fields, as `{:?}` prints it, or `{:#?}` when `alternate`. -/
def debugStruct (alternate : Bool) (name : String) (fields : List (String × String)) : String :=
  if alternate then
    name ++ " \x7b\n" ++
      String.join (fields.map fun field => indented (field.1 ++ ": " ++ field.2 ++ ",\n")) ++ "\x7d"
  else
    name ++ " \x7b " ++ ", ".intercalate (fields.map fun field => field.1 ++ ": " ++ field.2) ++
      " \x7d"

def debugOption (alternate : Bool) : Option String → String
  | none => "None"
  | some value =>
      if alternate then "Some(\n" ++ indented (value ++ ",\n") ++ ")" else "Some(" ++ value ++ ")"

/-- `char::escape_debug` inside a string; `hidden` are the characters that are not printable. -/
def escapeDebug (hidden : Char → Bool) (c : Char) : String :=
  if c = '\x00' then "\\0"
  else if c = '\t' then "\\t"
  else if c = '\r' then "\\r"
  else if c = '\n' then "\\n"
  else if c = '"' then "\\\""
  else if c = '\\' then "\\\\"
  else if hidden c then "\\u\x7b" ++ String.ofList (Nat.toDigits 16 c.toNat) ++ "\x7d"
  else c.toString

def debugStr (hidden : Char → Bool) (s : String) : String :=
  "\"" ++ String.join (s.toList.map (escapeDebug hidden)) ++ "\""

def fractionDigits : Nat → Nat → List Char
  | 0, _ => []
  | places + 1, part =>
      if part = 0 then []
      else Nat.digitChar (part / 10 ^ places) :: fractionDigits places (part % 10 ^ places)

def debugDuration (millis : Nat) : String :=
  if 1000 ≤ millis then
    let fraction :=
      if millis % 1000 = 0 then "" else "." ++ String.ofList (fractionDigits 3 (millis % 1000))
    toString (millis / 1000) ++ fraction ++ "s"
  else if 0 < millis then toString millis ++ "ms"
  else "0ns"

example : debugDuration 5000 = "5s" ∧ debugDuration 1250 = "1.25s" := by decide +kernel

def Error.display : Error → String
  | .io reason => "i/o error: " ++ reason
  | .server err => err.message
  | .auth user source => "authentication failed for user `" ++ user ++ "`: " ++ source.message
  | .protocol message => "protocol violation: " ++ message
  | .encode reason => "failed to encode request: " ++ reason
  | .decode reason => "failed to decode response: " ++ reason
  | .closed => "connection closed"
  | .shuttingDown => "server is shutting down"
  | .timeout limit => "request timed out after " ++ debugDuration limit
  | .url message => "invalid connection url: " ++ message
  | .unsupported feature => "server does not support " ++ feature

namespace Options

open ConnectOptions
open Foundation

def debugReconnect (alternate : Bool) : Connection.Reconnect → String
  | .backoff min max =>
      debugStruct alternate "Backoff" [("min", debugDuration min), ("max", debugDuration max)]
  | .never => "Never"

/-- Never prints the password. -/
def ConnectOptions.debug (hidden : Char → Bool) (alternate : Bool) (options : ConnectOptions) :
    String :=
  debugStruct alternate "ConnectOptions" [
    ("addr", debugStr hidden options.addr),
    ("user", debugOption alternate (options.user.map (debugStr hidden))),
    ("password",
      debugOption alternate (options.password.map fun _ => debugStr hidden "<redacted>")),
    ("connect_timeout", debugDuration options.connectTimeout),
    ("request_timeout", debugOption alternate (options.requestTimeout.map debugDuration)),
    ("reconnect", debugReconnect alternate options.reconnect),
    ("tcp_nodelay", toString options.tcpNodelay)]

example : (ConnectOptions.new "h").debug (fun _ => false) false =
    "ConnectOptions \x7b addr: \"h:3301\", user: None, password: None, connect_timeout: 5s, " ++
      "request_timeout: None, reconnect: Backoff \x7b min: 100ms, max: 5s \x7d, " ++
      "tcp_nodelay: true \x7d" := by decide +kernel

/-! ## Refusals -/

/-- What `parse` looks at in a URL before it takes it. -/
inductive Check where
  | host
  | path
  | escape
  | utf8
  deriving DecidableEq

def Check.refusal (quoted : String) : Check → Error
  | .host => .url ("no host in `" ++ quoted ++ "`")
  | .path => .url ("unexpected path in `" ++ quoted ++ "`")
  | .escape => badEscape quoted
  | .utf8 => .url ("`" ++ quoted ++ "` is not valid UTF-8")

theorem display_url_inj {front back quoted quoted' : String}
    (h : (Error.url (front ++ quoted ++ back)).display =
      (Error.url (front ++ quoted' ++ back)).display) : quoted = quoted' := by
  have hmessage := (String.append_right_inj _).mp h
  exact (String.append_right_inj _).mp ((String.append_left_inj _).mp hmessage)

theorem refusal_display_inj {check : Check} {quoted quoted' : String}
    (h : (check.refusal quoted).display = (check.refusal quoted').display) : quoted = quoted' := by
  cases check with
  | host => exact display_url_inj h
  | path => exact display_url_inj h
  | escape => exact display_url_inj h
  | utf8 => exact display_url_inj h

def Check.initial : Check → Char
  | .host => 'n'
  | .path => 'u'
  | .escape => 'b'
  | .utf8 => '\x60'

theorem refusal_initial (check : Check) (quoted : String) :
    ∃ message, check.refusal quoted = .url message ∧ message.toList.head? = some check.initial := by
  cases check with
  | host => exact ⟨_, rfl, by simp [Check.initial]⟩
  | path => exact ⟨_, rfl, by simp [Check.initial]⟩
  | escape => exact ⟨_, rfl, by simp [Check.initial]⟩
  | utf8 => exact ⟨_, rfl, by simp [Check.initial]⟩

theorem refusal_check {check check' : Check} {quoted quoted' : String}
    (h : check.refusal quoted = check'.refusal quoted') : check = check' := by
  obtain ⟨message, hmessage, hinitial⟩ := refusal_initial check quoted
  obtain ⟨message', hmessage', hinitial'⟩ := refusal_initial check' quoted'
  rw [hmessage, hmessage'] at h
  obtain rfl := Error.url.inj h
  have hsame := Option.some.inj (hinitial.symm.trans hinitial')
  cases check <;> cases check' <;> simp [Check.initial] at hsame ⊢

inductive Defect (text : String) : Check → Prop
  | escape (h : ∀ out signs, ¬ Reading (asBytes text) out signs) : Defect text .escape
  | utf8 {out : Bytes} {signs : Nat} (h : Reading (asBytes text) out signs)
      (hutf8 : ∀ s, out ≠ asBytes s) : Defect text .utf8

theorem percentDecode_defect {text : String} {check : Check} (h : Defect text check) :
    percentDecode text = .error (check.refusal text) := by
  unfold percentDecode
  cases h with
  | escape h =>
      cases hloop : decodeLoop text (asBytes text) 0 [] with
      | ok out =>
          obtain ⟨decoded, signs, hreading, -⟩ := decodeLoop_ok_iff.mp hloop
          exact absurd hreading (h decoded signs)
      | error err =>
          obtain rfl := decodeLoop_error hloop
          rfl
  | @utf8 out signs h hutf8 =>
      have hloop : decodeLoop text (asBytes text) 0 [] = .ok out :=
        decodeLoop_ok_iff.mpr ⟨out, signs, h, rfl⟩
      rw [hloop]
      change decodedText text out = _
      unfold decodedText
      split
      next s hs => exact absurd (asBytes_of_fromUTF8 hs).symm (hutf8 s)
      next => rfl

theorem Defect.unique {text : String} {check check' : Check} (h : Defect text check)
    (h' : Defect text check') : check = check' := by
  have herror := (percentDecode_defect h).symm.trans (percentDecode_defect h')
  exact refusal_check (Except.error.inj herror)

theorem defect_of_open {text : String} (bytes : Bytes) (htext : asBytes text = bytes ++ [percent])
    (h : ∀ c ∈ bytes, c ≠ percent) : Defect text .escape := by
  refine .escape fun out signs hreading => ?_
  rw [htext] at hreading
  clear htext
  induction bytes generalizing out signs with
  | nil =>
      obtain ⟨hne, -⟩ | ⟨-, hi, lo, rest, value, out', signs', heq, -⟩ := hreading.cons
      · exact hne rfl
      · cases heq
  | cons c bytes ih =>
      rw [List.forall_mem_cons] at h
      obtain ⟨-, out', -, hrest⟩ | ⟨hpercent, -⟩ := hreading.cons
      · exact ih h.2 out' signs hrest
      · exact h.1 hpercent

theorem decoded_or_defect (text : String) :
    (∃ s, percentDecode text = .ok s) ∨ ∃ check, Defect text check := by
  by_cases hread : ∃ out signs, Reading (asBytes text) out signs
  · obtain ⟨out, signs, hreading⟩ := hread
    by_cases hutf8 : ∃ s, out = asBytes s
    · obtain ⟨s, rfl⟩ := hutf8
      exact .inl ⟨s, percentDecode_ok_iff.mpr ⟨signs, hreading⟩⟩
    · exact .inr ⟨.utf8, .utf8 hreading fun s hs => hutf8 ⟨s, hs⟩⟩
  · exact .inr ⟨.escape, .escape fun out signs h => hread ⟨out, signs, h⟩⟩

theorem no_defect {text s : String} (h : percentDecode text = .ok s) (check : Check) :
    ¬ Defect text check := by
  intro hdefect
  rw [percentDecode_defect hdefect] at h
  cases h

/-! ## A URL with a password -/

def connectionUrl (user password host : String) : String :=
  "tarantool://" ++ (user ++ ":" ++ password ++ "@" ++ host)

/-- What is in front of the last `@` of the host goes to the password, what is behind is kept. -/
def cutHost (host : String) : String × String :=
  match rsplitOnce host '@' with
  | some (front, back) => ("@" ++ front, back)
  | none => ("", host)

/-- What is behind the first `:` of the user goes to the password, what is in front is kept. -/
def cutUser (user : String) : String × String :=
  match splitOnce user ':' with
  | some (front, back) => (front, back ++ ":")
  | none => (user, "")

def hostPart (host : String) : String := (cutHost host).2

def userPart (user : String) : String := (cutUser user).1

def passwordPart (user password host : String) : String :=
  (cutUser user).2 ++ password ++ (cutHost host).1

theorem exists_split_first {s : String} {c : Char} (h : c ∈ s.toList) :
    ∃ front back : String, s = front ++ c.toString ++ back ∧ c ∉ front.toList := by
  obtain ⟨front, back, heq, hfront⟩ := List.eq_append_cons_of_mem h
  refine ⟨String.ofList front, String.ofList back, ?_, by simpa using hfront⟩
  rw [← String.toList_inj, heq]
  simp

theorem exists_split_last {s : String} {c : Char} (h : c ∈ s.toList) :
    ∃ front back : String, s = front ++ c.toString ++ back ∧ c ∉ back.toList := by
  obtain ⟨back, front, heq, hback⟩ := List.eq_append_cons_of_mem (List.mem_reverse.mpr h)
  refine ⟨String.ofList front.reverse, String.ofList back.reverse, ?_, by simpa using hback⟩
  rw [List.reverse_eq_iff] at heq
  rw [← String.toList_inj, heq]
  simp

theorem rsplitOnce_none {s : String} {c : Char} (h : c ∉ s.toList) : rsplitOnce s c = none := by
  rw [rsplitOnce, splitLast_none h]
  rfl

theorem cutHost_eq (host : String) :
    "@" ++ host = (cutHost host).1 ++ "@" ++ hostPart host ∧ '@' ∉ (hostPart host).toList := by
  unfold hostPart cutHost
  by_cases hat : '@' ∈ host.toList
  · obtain ⟨front, back, rfl, hback⟩ := exists_split_last hat
    rw [show '@'.toString = "@" from rfl, rsplitOnce_at front hback]
    exact ⟨by simp only [String.append_assoc], hback⟩
  · rw [rsplitOnce_none hat]
    exact ⟨by simp only [String.empty_append], hat⟩

theorem cutUser_eq (user : String) :
    user ++ ":" = userPart user ++ ":" ++ (cutUser user).2 ∧ ':' ∉ (userPart user).toList := by
  unfold userPart cutUser
  by_cases hcolon : ':' ∈ user.toList
  · obtain ⟨front, back, rfl, hfront⟩ := exists_split_first hcolon
    rw [show ':'.toString = ":" from rfl, splitOnce_colon back hfront]
    exact ⟨by simp only [String.append_assoc], hfront⟩
  · rw [splitOnce_none hcolon]
    exact ⟨by simp only [String.append_empty], hcolon⟩

theorem url_parts (user password host : String) :
    user ++ ":" ++ password ++ "@" ++ host =
      userPart user ++ ":" ++ passwordPart user password host ++ "@" ++ hostPart host := by
  calc user ++ ":" ++ password ++ "@" ++ host
      = user ++ ":" ++ password ++ ("@" ++ host) := by simp only [String.append_assoc]
    _ = userPart user ++ ":" ++ (cutUser user).2 ++ password ++
          ((cutHost host).1 ++ "@" ++ hostPart host) := by
        rw [(cutUser_eq user).1, (cutHost_eq host).1]
    _ = _ := by simp only [passwordPart, String.append_assoc]

/-! ## What becomes of the URL -/

section Parsed

variable {user password host : String}

theorem splitHost_url : splitHost (user ++ ":" ++ password ++ "@" ++ host) =
    (some (userPart user ++ ":" ++ passwordPart user password host), hostPart host) := by
  rw [url_parts, splitHost, rsplitOnce_at _ (cutHost_eq host).2]

theorem parse_noHost (h : hostPart host = "") : parse (connectionUrl user password host) =
    .error (Check.host.refusal (connectionUrl user password host)) := by
  rw [parse, connectionUrl, stripPrefix_append, Option.getD_some, splitHost_url]
  exact if_pos h

theorem parse_path (h : hostPart host ≠ "") (hpath : '/' ∈ (hostPart host).toList) :
    parse (connectionUrl user password host) =
      .error (Check.path.refusal (connectionUrl user password host)) := by
  rw [parse, connectionUrl, stripPrefix_append, Option.getD_some, splitHost_url]
  simp only
  rw [if_neg h, if_pos (contains_iff.mpr hpath)]
  rfl

theorem parse_taken (h : hostPart host ≠ "") (hpath : '/' ∉ (hostPart host).toList) :
    parse (connectionUrl user password host) = (do
      let name ← percentDecode (userPart user)
      let decoded ← percentDecode (passwordPart user password host)
      return { new (hostPart host) with user := some name, password := some decoded }) := by
  have hrest : (stripPrefix (connectionUrl user password host) "tarantool://").getD
      (connectionUrl user password host) =
        userPart user ++ ":" ++ passwordPart user password host ++ "@" ++ hostPart host := by
    rw [connectionUrl, stripPrefix_append, Option.getD_some, url_parts]
  rw [parse_with hrest (rsplitOnce_at _ (cutHost_eq host).2) h hpath, withCredentials,
    splitCredentials, splitOnce_colon _ (cutUser_eq user).2]
  change (percentDecode (userPart user) >>= fun name =>
    (some <$> percentDecode (passwordPart user password host)) >>= _) = _
  cases percentDecode (userPart user) with
  | error err => rfl
  | ok name =>
      cases percentDecode (passwordPart user password host) with
      | error err => rfl
      | ok decoded => rfl

end Parsed

/-! ## Two passwords -/

/-- The texts shown for two outcomes of `parse` are the same: those of two settings, and those
of two refusals by one check. -/
structure SameText (first second : Except Error ConnectOptions) : Prop where
  debug : ∀ options options', first = .ok options → second = .ok options' →
    ∀ hidden alternate, options.debug hidden alternate = options'.debug hidden alternate
  display : ∀ (check : Check) (quoted quoted' : String), first = .error (check.refusal quoted) →
    second = .error (check.refusal quoted') →
      (check.refusal quoted).display = (check.refusal quoted').display

theorem sameText_self (outcome : Except Error ConnectOptions) : SameText outcome outcome := by
  constructor
  · rintro options options' h h'
    obtain rfl := Except.ok.inj (h.symm.trans h')
    exact fun hidden alternate => rfl
  · rintro check quoted quoted' h h'
    rw [Except.error.inj (h.symm.trans h')]

theorem sameText_refused (check : Check) (quoted quoted' : String) :
    SameText (.error (check.refusal quoted)) (.error (check.refusal quoted')) ↔
      quoted = quoted' := by
  constructor
  · intro h
    exact refusal_display_inj (h.display check quoted quoted' rfl rfl)
  · rintro rfl
    exact sameText_self _

theorem sameText_checks {check check' : Check} (h : check ≠ check') (quoted quoted' : String) :
    SameText (.error (check.refusal quoted)) (.error (check'.refusal quoted')) := by
  constructor
  · rintro options options' hfirst
    cases hfirst
  · rintro both text text' hfirst hsecond
    have hcheck := refusal_check (Except.error.inj hfirst)
    have hcheck' := refusal_check (Except.error.inj hsecond)
    exact absurd (hcheck.trans hcheck'.symm) h

theorem sameText_parsed (options : ConnectOptions) (password password' : String) :
    SameText (.ok { options with password := some password })
      (.ok { options with password := some password' }) := by
  constructor
  · rintro first second hfirst hsecond hidden alternate
    obtain rfl := Except.ok.inj hfirst
    obtain rfl := Except.ok.inj hsecond
    rfl
  · rintro check quoted quoted' hfirst
    cases hfirst

theorem sameText_ok_error (options : ConnectOptions) (err : Error) :
    SameText (.ok options) (.error err) := by
  constructor
  · rintro first second - hsecond
    cases hsecond
  · rintro check quoted quoted' hfirst
    cases hfirst

theorem sameText_error_ok (err : Error) (options : ConnectOptions) :
    SameText (.error err) (.ok options) := by
  constructor
  · rintro first second hfirst
    cases hfirst
  · rintro check quoted quoted' - hsecond
    cases hsecond

def HostTaken (host : String) : Prop := hostPart host ≠ "" ∧ '/' ∉ (hostPart host).toList

def Redacted (user host first second : String) : Prop :=
  SameText (parse (connectionUrl user first host)) (parse (connectionUrl user second host))

/-- The passwords are the same, or none of the two is quoted in a refusal that both meet. -/
def Unquoted (user host first second : String) : Prop :=
  first = second ∨ HostTaken host ∧
    ((∃ check, Defect (userPart user) check) ∨
      ∀ check, Defect (passwordPart user first host) check →
        ¬ Defect (passwordPart user second host) check)

section Pair

variable {user host first second : String}

theorem connectionUrl_inj :
    connectionUrl user first host = connectionUrl user second host ↔ first = second := by
  simp only [connectionUrl, String.append_right_inj, String.append_left_inj]

theorem passwordPart_inj :
    passwordPart user first host = passwordPart user second host ↔ first = second := by
  simp only [passwordPart, String.append_right_inj, String.append_left_inj]

theorem redacted_of_refused {check : Check}
    (h : ∀ password, parse (connectionUrl user password host) =
      .error (check.refusal (connectionUrl user password host))) :
    Redacted user host first second ↔ first = second := by
  rw [Redacted, h, h, sameText_refused, connectionUrl_inj]

theorem redacted_of_decoded_user (h : hostPart host ≠ "") (hpath : '/' ∉ (hostPart host).toList)
    {name : String} (hname : percentDecode (userPart user) = .ok name) :
    Redacted user host first second ↔ first = second ∨
      ∀ check, Defect (passwordPart user first host) check →
        ¬ Defect (passwordPart user second host) check := by
  rw [Redacted, parse_taken h hpath, parse_taken h hpath, hname]
  obtain ⟨decoded, hdecoded⟩ | ⟨check, hcheck⟩ := decoded_or_defect (passwordPart user first host)
  · have hnone : ∀ check, Defect (passwordPart user first host) check →
        ¬ Defect (passwordPart user second host) check :=
      fun check hdefect => absurd hdefect (no_defect hdecoded check)
    refine iff_of_true ?_ (.inr hnone)
    rw [hdecoded]
    obtain ⟨decoded', hdecoded'⟩ | ⟨check', hcheck'⟩ :=
      decoded_or_defect (passwordPart user second host)
    · rw [hdecoded']
      exact sameText_parsed { new (hostPart host) with user := some name } decoded decoded'
    · rw [percentDecode_defect hcheck']
      exact sameText_ok_error _ _
  · rw [percentDecode_defect hcheck]
    obtain ⟨decoded', hdecoded'⟩ | ⟨check', hcheck'⟩ :=
      decoded_or_defect (passwordPart user second host)
    · have hnone : ∀ check, Defect (passwordPart user first host) check →
          ¬ Defect (passwordPart user second host) check :=
        fun check _ => no_defect hdecoded' check
      refine iff_of_true ?_ (.inr hnone)
      rw [hdecoded']
      exact sameText_error_ok _ _
    · rw [percentDecode_defect hcheck']
      by_cases hsame : check = check'
      · obtain rfl := hsame
        refine (sameText_refused check _ _).trans ?_
        rw [passwordPart_inj]
        exact ⟨.inl, fun hcase => hcase.resolve_right fun hnone => hnone check hcheck hcheck'⟩
      · refine iff_of_true (sameText_checks hsame _ _) (.inr fun both hfirst hsecond => ?_)
        exact hsame ((hcheck.unique hfirst).trans (hsecond.unique hcheck'))

theorem redacted_of_refused_user (h : hostPart host ≠ "") (hpath : '/' ∉ (hostPart host).toList)
    {check : Check} (hcheck : Defect (userPart user) check) : Redacted user host first second := by
  rw [Redacted, parse_taken h hpath, parse_taken h hpath, percentDecode_defect hcheck]
  exact sameText_self _

end Pair

/--
Two URLs that differ in their passwords show the same texts if and only if the passwords are not
quoted: the host is taken, and the user name is refused or the passwords have no defect in common.
-/
theorem redacted_iff_unquoted (user host first second : String) :
    Redacted user host first second ↔ Unquoted user host first second := by
  by_cases htaken : HostTaken host
  · obtain ⟨hne, hpath⟩ := htaken
    obtain ⟨name, hname⟩ | ⟨check, hcheck⟩ := decoded_or_defect (userPart user)
    · have huser : ¬ ∃ check, Defect (userPart user) check :=
        fun ⟨check, hdefect⟩ => no_defect hname check hdefect
      rw [redacted_of_decoded_user hne hpath hname, Unquoted, or_iff_right huser,
        and_iff_right ⟨hne, hpath⟩]
    · exact iff_of_true (redacted_of_refused_user hne hpath hcheck)
        (.inr ⟨⟨hne, hpath⟩, .inl ⟨check, hcheck⟩⟩)
  · rw [Unquoted, or_iff_left fun h => htaken h.1]
    by_cases hne : hostPart host = ""
    · exact redacted_of_refused fun password => parse_noHost hne
    · have hpath : '/' ∈ (hostPart host).toList := by
        by_contra hnone
        exact htaken ⟨hne, hnone⟩
      exact redacted_of_refused fun password => parse_path hne hpath

theorem refusal_quotes_the_password :
    parse (connectionUrl "app" "hunter2%" "db") =
        .error (.url ("bad percent-escape in `" ++ "hunter2%" ++ "`")) ∧
      ¬ ∀ user host first second : String, '@' ∉ first.toList → '@' ∉ second.toList →
        Redacted user host first second := by
  have huser : percentDecode (userPart "app") = .ok "app" :=
    percentDecode_ok_iff.mpr ⟨0, .plain (by decide) (.plain (by decide) (.plain (by decide) .done))⟩
  have hhost : hostPart "db" ≠ "" := by decide
  have hpath : '/' ∉ (hostPart "db").toList := by decide
  have hpart (password : String) : passwordPart "app" password "db" = password := by
    simp [passwordPart, show cutUser "app" = ("app", "") from rfl,
      show cutHost "db" = ("", "db") from rfl]
  have hfirst : Defect "hunter2%" .escape :=
    defect_of_open (asBytes "hunter2") (by decide +kernel) (by decide +kernel)
  have hsecond : Defect "secret%" .escape :=
    defect_of_open (asBytes "secret") (by decide +kernel) (by decide +kernel)
  constructor
  · rw [parse_taken hhost hpath, huser, hpart, percentDecode_defect hfirst]
    rfl
  · intro hall
    have hsame := hall "app" "db" "hunter2%" "secret%" (by decide) (by decide)
    rw [redacted_of_decoded_user hhost hpath huser, hpart, hpart] at hsame
    obtain heq | hnone := hsame
    · exact absurd heq (by decide)
    · exact hnone .escape hfirst hsecond

end Options

end Tarant
