import Tarant.Replies
import Tarant.Foundation.LastMatch

/-!
# Server errors

A server error reaches the client by three routes: the code in the header of the
packet, a text under `IPROTO_ERROR_24`, and a stack of frames under `IPROTO_ERROR`.
Each frame is a map, and the last entry under a key decides its field.
-/

namespace Tarant

open Foundation
open Iproto
open Msgpack (bind_ok MapCursor)

/-! ## One frame -/

def under (key : Nat) (entry : Value × Value) : Bool := decide (entry.1.asU64 = some key)

def codeOf (value : Value) : Option Nat := value.asU64.filter (· < 2 ^ 32)

def collectFields (value : Value) : List (String × Value) :=
  (value.asMap.map decodeErrorFrame.collect).getD []

theorem visit_eq (err : ServerError) (entry : Value × Value) :
    decodeErrorFrame.visit err entry =
      { code := if under ErrorKey.errcode entry then (codeOf entry.2).getD 0 else err.code
        message :=
          if under ErrorKey.message entry then entry.2.asStr.getD "" else err.message
        kind := if under ErrorKey.type entry then entry.2.asStr.getD "" else err.kind
        file := if under ErrorKey.file entry then entry.2.asStr else err.file
        line := if under ErrorKey.line entry then entry.2.asU64 else err.line
        errno := if under ErrorKey.errno entry then entry.2.asU64.getD 0 else err.errno
        fields := if under ErrorKey.fields entry then collectFields entry.2 else err.fields
        cause := err.cause } := by
  obtain ⟨k, v⟩ := entry
  cases err
  unfold decodeErrorFrame.visit under
  cases hk : k.asU64 with
  | none => simp [hk]
  | some key =>
      simp only [hk, Option.some.injEq, decide_eq_true_eq]
      match key with
      | 0 | 1 | 2 | 3 | 4 | 5 | 6 => rfl
      | key + 7 =>
          simp [ErrorKey.type, ErrorKey.file, ErrorKey.line, ErrorKey.message, ErrorKey.errno,
            ErrorKey.errcode, ErrorKey.fields]

def frameOf (entries : List (Value × Value)) : ServerError where
  code := ((lastMatch (under ErrorKey.errcode) entries).map fun entry =>
    (codeOf entry.2).getD 0).getD 0
  message := ((lastMatch (under ErrorKey.message) entries).map fun entry =>
    entry.2.asStr.getD "").getD ""
  kind := ((lastMatch (under ErrorKey.type) entries).map fun entry =>
    entry.2.asStr.getD "").getD "ClientError"
  file := ((lastMatch (under ErrorKey.file) entries).map fun entry => entry.2.asStr).getD none
  line := ((lastMatch (under ErrorKey.line) entries).map fun entry => entry.2.asU64).getD none
  errno := ((lastMatch (under ErrorKey.errno) entries).map fun entry =>
    entry.2.asU64.getD 0).getD 0
  fields := ((lastMatch (under ErrorKey.fields) entries).map fun entry =>
    collectFields entry.2).getD []
  cause := []

theorem foldl_visit (entries : List (Value × Value)) :
    entries.foldl decodeErrorFrame.visit (ServerError.fromMessage 0 "") = frameOf entries := by
  have hfield {β : Type} {f : ServerError → β} {g : Value × Value → β} {key : Nat}
      (hf : ∀ err entry, f (decodeErrorFrame.visit err entry) =
        if under key entry then g entry else f err) :=
    foldl_lastMatch hf entries (ServerError.fromMessage 0 "")
  have hcode := hfield (f := ServerError.code) fun err entry => by rw [visit_eq]
  have hmessage := hfield (f := ServerError.message) fun err entry => by rw [visit_eq]
  have hkind := hfield (f := ServerError.kind) fun err entry => by rw [visit_eq]
  have hfile := hfield (f := ServerError.file) fun err entry => by rw [visit_eq]
  have hline := hfield (f := ServerError.line) fun err entry => by rw [visit_eq]
  have herrno := hfield (f := ServerError.errno) fun err entry => by rw [visit_eq]
  have hfields := hfield (f := ServerError.fields) fun err entry => by rw [visit_eq]
  have hcause : (entries.foldl decodeErrorFrame.visit (ServerError.fromMessage 0 "")).cause = [] := by
    refine (foldl_lastMatch (r := decodeErrorFrame.visit) (p := fun _ => false) (g := fun _ => [])
      (fun err entry => ?_) entries _).trans (by simp [lastMatch, ServerError.fromMessage])
    rw [visit_eq]
    rfl
  generalize entries.foldl decodeErrorFrame.visit (ServerError.fromMessage 0 "") = err at *
  cases err
  simp only at hcode hmessage hkind hfile hline herrno hfields hcause
  subst hcode hmessage hkind hfile hline herrno hfields hcause
  rfl

theorem decodeErrorFrame_eq (frame : Value) :
    decodeErrorFrame frame = match frame.asMap with
      | none => .error (.protocol "MP_ERROR frame is not a map")
      | some entries => .ok (frameOf entries) := by
  unfold decodeErrorFrame
  cases frame.asMap with
  | none => rfl
  | some entries => exact congrArg Except.ok (foldl_visit entries)

/-! ## The stack -/

def framesOf (value : Value) : Option (List Value) :=
  (value.asMap.bind fun entries =>
    (entries.find? fun entry => entry.1.asU64 == some ErrorKey.stack).map
      Prod.snd).bind Value.asArray

def stackError (code : Nat) : List ServerError → ServerError
  | [] => ServerError.fromMessage code "empty error stack"
  | outer :: rest => { outer with cause := rest }

theorem decodeErrorMap_eq {rmp : Rmp} {bytes : Bytes} {value : Value} {frames : List Value}
    (hread : rmp.readValue bytes = .ok value) (hframes : framesOf value = some frames)
    (code : Nat) :
    decodeErrorMap rmp bytes code = (frames.mapM decodeErrorFrame).map (stackError code) := by
  unfold decodeErrorMap
  unfold framesOf at hframes
  simp only [hread, hframes]
  cases frames.mapM decodeErrorFrame with
  | error err => rfl
  | ok errs => cases errs <;> rfl

def outerFrame (rmp : Rmp) (bytes : Bytes) : Option (List (Value × Value)) :=
  ((rmp.readValue bytes).toOption.bind framesOf).bind fun frames =>
    frames.head?.bind Value.asMap

def frameCode (entries : List (Value × Value)) : Option Nat :=
  (lastMatch (under ErrorKey.errcode) entries).bind fun entry => codeOf entry.2

theorem frameOf_code (entries : List (Value × Value)) :
    (frameOf entries).code = (frameCode entries).getD 0 := by
  unfold frameOf frameCode
  cases lastMatch (under ErrorKey.errcode) entries <;> rfl

theorem decodeErrorMap_code {rmp : Rmp} {bytes : Bytes} {code : Nat} {err : ServerError}
    (h : decodeErrorMap rmp bytes code = .ok err) :
    err.code = match outerFrame rmp bytes with
      | none => code
      | some entries => (frameCode entries).getD 0 := by
  cases hread : rmp.readValue bytes with
  | error reason => simp [decodeErrorMap, hread] at h
  | ok value =>
      cases hframes : framesOf value with
      | none =>
          unfold framesOf at hframes
          simp [decodeErrorMap, hread, hframes] at h
      | some frames =>
          rw [decodeErrorMap_eq hread hframes] at h
          cases herrs : frames.mapM decodeErrorFrame with
          | error reason => simp [herrs, Except.map] at h
          | ok errs =>
              rw [herrs] at h
              obtain rfl := Except.ok.inj h
              cases frames with
              | nil =>
                  obtain rfl := Except.ok.inj herrs
                  simp [outerFrame, hread, hframes, Except.toOption, stackError,
                    ServerError.fromMessage]
              | cons frame frames =>
                  rw [List.mapM_cons] at herrs
                  obtain ⟨outer, houter, herrs⟩ := bind_ok.mp herrs
                  obtain ⟨rest, -, herrs⟩ := bind_ok.mp herrs
                  obtain rfl := Except.ok.inj herrs
                  rw [decodeErrorFrame_eq] at houter
                  cases hentries : frame.asMap with
                  | none => simp [hentries] at houter
                  | some entries =>
                      simp only [hentries] at houter
                      obtain rfl := Except.ok.inj houter
                      simp [outerFrame, hread, hframes, Except.toOption, stackError, hentries,
                        frameOf_code]

/-! ## The packet -/

def headerOf (rmp : Rmp) (packet : Bytes) : Except Error Header := do
  let (cursor, _) ← MapCursor.new packet
  cursor.forEach rmp {} (Header.visit rmp)

def bodyOf (packet : Bytes) : Bytes :=
  ((MapCursor.new packet).toOption.map fun opened => packet.drop opened.2).getD []

def errorExtOf (rmp : Rmp) (body : Bytes) : Option Bytes :=
  (do
    let (cursor, _) ← MapCursor.new body
    cursor.forEach rmp none fun found entry =>
      .ok (if narrowKey entry.key = Key.error then some entry.value else found)
    : Except Error (Option Bytes)).toOption.join

theorem walk_project {α β : Type} {rmp : Rmp} {visit : α → Msgpack.Entry → Except Error α}
    (visit' : β → Msgpack.Entry → Except Error β) (f : α → β)
    (hvisit : ∀ acc entry acc', visit acc entry = .ok acc' →
      visit' (f acc) entry = .ok (f acc'))
    {fuel : Nat} {cursor : MapCursor} {acc result : α}
    (h : MapCursor.walk rmp visit fuel cursor acc = .ok result) :
    MapCursor.walk rmp visit' fuel cursor (f acc) = .ok (f result) := by
  induction fuel generalizing cursor acc with
  | zero =>
      obtain rfl := Except.ok.inj h
      rfl
  | succ fuel ih =>
      obtain ⟨next, hnext, h⟩ := bind_ok.mp h
      refine bind_ok.mpr ⟨next, hnext, ?_⟩
      cases next with
      | none =>
          obtain rfl := Except.ok.inj h
          rfl
      | some step =>
          obtain ⟨acc', hacc, h⟩ := bind_ok.mp h
          exact bind_ok.mpr ⟨f acc', hvisit _ _ _ hacc, ih h⟩

theorem errorExtOf_eq {rmp : Rmp} {body : Bytes} {cursor : MapCursor} {total : Nat}
    {parts parts' : BodyParts} (hnew : MapCursor.new body = .ok (cursor, total))
    (hparts : parts.errorExt = none)
    (h : cursor.forEach rmp parts (BodyParts.visit rmp) = .ok parts') :
    errorExtOf rmp body = parts'.errorExt := by
  have hwalk := walk_project
    (fun found entry => .ok (if narrowKey entry.key = Key.error then some entry.value else found))
    BodyParts.errorExt
    (fun acc entry acc' hvisit => by
      obtain ⟨-, rfl⟩ := (BodyParts.visit_ok _ _ _ _).mp hvisit
      rfl) h
  rw [hparts] at hwalk
  have hfound : (do
      let (cursor, _) ← MapCursor.new body
      cursor.forEach rmp none fun found entry =>
        .ok (if narrowKey entry.key = Key.error then some entry.value else found)
      : Except Error (Option Bytes)) = .ok parts'.errorExt :=
    bind_ok.mpr ⟨_, hnew, hwalk⟩
  rw [errorExtOf, hfound]
  rfl

/-! ## The request type of an error -/

theorem errorFlag_add {code : Nat} (h : code < 2 ^ 15) :
    Response.errorFlag + code = Response.errorFlag ||| code :=
  Nat.two_pow_add_eq_or_of_lt h 1

theorem kindOf_error {code : Nat} (h : code < 2 ^ 15) :
    kindOf (Response.errorFlag + code) = .ok .error := by
  have hflag : (Response.errorFlag + code) &&& Response.errorFlag ≠ 0 := by
    rw [errorFlag_add h, Nat.and_or_distrib_right, Nat.and_self]
    have hle : Response.errorFlag ≤ Response.errorFlag ||| code &&& Response.errorFlag :=
      Nat.left_le_or
    exact (Nat.lt_of_lt_of_le (by decide) hle).ne'
  unfold kindOf
  rw [if_neg (by simp [Response.errorFlag, Response.ok]),
    if_neg (by simp [Response.errorFlag, Response.chunk]; omega),
    if_neg (by simp [Response.errorFlag, Iproto.Response.event]; omega), if_pos hflag]

theorem errorCode_errorFlag_add {code : Nat} (h : code < 2 ^ 15) :
    errorCode (Response.errorFlag + code) = code := by
  have hmask : (Response.errorFlag + code) &&& (2 ^ 64 - 1 - Response.errorFlag) = code := by
    rw [errorFlag_add h, Nat.and_or_distrib_right]
    have hlow : code &&& (2 ^ 15 - 1) = code := Nat.and_two_pow_sub_one_of_lt_two_pow h
    calc Response.errorFlag &&& (2 ^ 64 - 1 - Response.errorFlag) |||
          code &&& (2 ^ 64 - 1 - Response.errorFlag)
        = 0 ||| code &&& (2 ^ 15 - 1) &&& (2 ^ 64 - 1 - Response.errorFlag) := by
          rw [hlow]
          rfl
      _ = code &&& ((2 ^ 15 - 1) &&& (2 ^ 64 - 1 - Response.errorFlag)) := by
          rw [Nat.zero_or, Nat.and_assoc]
      _ = code := hlow
  rw [errorCode, hmask, if_pos (by omega)]

/-! ## The code of the error -/

def stackFrame (rmp : Rmp) (body : Bytes) : Option (List (Value × Value)) :=
  (errorExtOf rmp body).bind (outerFrame rmp)

theorem intoError_code {rmp : Rmp} {packet : Bytes} {response : Response} {header : Header}
    {code : Nat} (hparse : Response.parse rmp packet = .ok response)
    (hheader : headerOf rmp packet = .ok header)
    (htype : header.requestType = some (Response.errorFlag + code)) (hcode : code < 2 ^ 15) :
    response.intoError.code =
      if bodyOf packet = [] then 0
      else match stackFrame rmp (bodyOf packet) with
        | none => code
        | some entries => (frameCode entries).getD 0 := by
  unfold Response.parse at hparse
  obtain ⟨⟨cursor, headerLen⟩, hnew, hparse⟩ := bind_ok.mp hparse
  have hbodyOf : bodyOf packet = packet.drop headerLen := by
    rw [bodyOf, hnew]
    rfl
  obtain ⟨header', hheader', hparse⟩ := bind_ok.mp hparse
  obtain rfl : header' = header :=
    Except.ok.inj ((bind_ok.mpr ⟨_, hnew, hheader'⟩ : headerOf rmp packet = _).symm.trans hheader)
  simp only [htype, kindOf_error hcode] at hparse
  obtain ⟨kind, hkind, hparse⟩ := bind_ok.mp hparse
  obtain rfl := Except.ok.inj hkind
  split at hparse
  next hempty =>
      obtain rfl := Except.ok.inj hparse
      rw [hbodyOf, if_pos hempty]
      rfl
  next hbody =>
      obtain ⟨⟨bodyCursor, total⟩, hbodyNew, hparse⟩ := bind_ok.mp hparse
      obtain ⟨parts, hparts, hparse⟩ := bind_ok.mp hparse
      rw [if_pos rfl, errorCode_errorFlag_add hcode] at hparse
      have hext := errorExtOf_eq hbodyNew rfl hparts
      cases herrorExt : parts.errorExt with
      | none =>
          rw [herrorExt] at hext
          simp only [herrorExt] at hparse
          obtain rfl := Except.ok.inj hparse
          simp only [hbodyOf, if_neg hbody, stackFrame, hext]
          rfl
      | some bytes =>
          rw [herrorExt] at hext
          simp only [herrorExt] at hparse
          obtain ⟨err, herr, hparse⟩ := bind_ok.mp hparse
          obtain rfl := Except.ok.inj hparse
          simp only [hbodyOf, if_neg hbody, stackFrame, hext]
          exact decodeErrorMap_code herr

/--
The code of a server error is the one its outermost frame carries, else the one in
the header, and not zero unless the header's is, exactly when the header's code is
zero, or the packet has a body and its outermost frame, if any, carries a code other
than zero.
-/
theorem error_code_survives_iff {rmp : Rmp} {packet : Bytes} {response : Response}
    {header : Header} {code : Nat} (hparse : Response.parse rmp packet = .ok response)
    (hheader : headerOf rmp packet = .ok header)
    (htype : header.requestType = some (Response.errorFlag + code)) (hcode : code < 2 ^ 15) :
    (response.intoError.code =
        (((stackFrame rmp (bodyOf packet)).bind frameCode).getD code) ∧
      (code ≠ 0 → response.intoError.code ≠ 0)) ↔
    code = 0 ∨ bodyOf packet ≠ [] ∧
      ∀ entries, stackFrame rmp (bodyOf packet) = some entries →
        ∃ carried, frameCode entries = some carried ∧ carried ≠ 0 := by
  rw [intoError_code hparse hheader htype hcode]
  by_cases hbody : bodyOf packet = []
  · have hframe : stackFrame rmp (bodyOf packet) = none := by
      rw [hbody]
      rfl
    rw [if_pos hbody, hframe]
    simp [hbody, eq_comm]
  · rw [if_neg hbody]
    cases hframe : stackFrame rmp (bodyOf packet) with
    | none => simp [hbody]
    | some entries =>
        cases hcarried : frameCode entries with
        | none => simp [hbody, hcarried, eq_comm]
        | some carried =>
            simp only [Option.bind_some, hcarried, Option.getD_some, true_and]
            simp [hbody, hcarried, Classical.or_iff_not_imp_left]

def textErrorPacket : Bytes := [0x81, 0x00, 0xcd, 0x80, 0x0a, 0x81, 0x31, 0xa1, 0x61]

def bareErrorPacket : Bytes := [0x81, 0x00, 0xcd, 0x80, 0x0a]

set_option maxRecDepth 4000 in
theorem error_code_survives_iff_sample :
    ∃ response, Response.parse sampleRmp textErrorPacket = .ok response ∧
      response.intoError.code =
        ((stackFrame sampleRmp (bodyOf textErrorPacket)).bind frameCode).getD 10 := by
  refine ⟨_, rfl, ((error_code_survives_iff
    (show Response.parse sampleRmp textErrorPacket = .ok _ from rfl) rfl rfl
    (by decide)).mpr (.inr ⟨?_, ?_⟩)).1⟩
  · nofun
  · intro entries hentries
    cases hentries

set_option maxRecDepth 4000 in
/-- An error without a body is reported with the code 0. -/
theorem bodyless_error_loses_code :
    ¬ ∀ rmp packet response header code, Response.parse rmp packet = .ok response →
      headerOf rmp packet = .ok header →
      header.requestType = some (Response.errorFlag + code) → code < 2 ^ 15 →
      response.intoError.code =
          ((stackFrame rmp (bodyOf packet)).bind frameCode).getD code ∧
        (code ≠ 0 → response.intoError.code ≠ 0) := by
  intro hall
  have h := hall sampleRmp bareErrorPacket _ _ 10 rfl rfl rfl (by decide)
  exact h.2 (by decide) rfl

/-! ## The ordered fields -/

/-- A map as `fieldsInsert` keeps it. -/
abbrev Ordered (out : List (String × Value)) : Prop := out.Pairwise (·.1 < ·.1)

theorem fieldsInsert_perm {key : String} (value : Value) {out : List (String × Value)}
    (h : ∀ field ∈ out, key ≠ field.1) :
    (fieldsInsert key value out).Perm ((key, value) :: out) := by
  fun_induction fieldsInsert key value out with
  | case1 => exact .refl _
  | case2 value rest => exact absurd rfl (h (key, value) List.mem_cons_self)
  | case3 => exact .refl _
  | case4 k v rest hne hlt ih =>
      have hrest := ih fun field hmem => h field (List.mem_cons_of_mem _ hmem)
      exact (hrest.cons (k, v)).trans (.swap _ _ _)

theorem fieldsInsert_ordered {key : String} {value : Value} {out : List (String × Value)}
    (hnew : ∀ field ∈ out, key ≠ field.1) (h : Ordered out) :
    Ordered (fieldsInsert key value out) := by
  fun_induction fieldsInsert key value out with
  | case1 => exact List.pairwise_singleton _ _
  | case2 v rest => exact absurd rfl (hnew (key, v) List.mem_cons_self)
  | case3 k v rest hne hlt =>
      refine List.pairwise_cons.mpr ⟨fun field hmem => ?_, h⟩
      obtain rfl | hmem := List.mem_cons.mp hmem
      · exact hlt
      · exact String.lt_trans hlt (List.rel_of_pairwise_cons h hmem)
  | case4 k v rest hne hlt ih =>
      have hrest : ∀ field ∈ rest, key ≠ field.1 := fun field hmem =>
        hnew field (List.mem_cons_of_mem _ hmem)
      refine List.pairwise_cons.mpr ⟨fun field hmem => ?_, ih hrest h.of_cons⟩
      obtain rfl | hmem := List.mem_cons.mp ((fieldsInsert_perm _ hrest).subset hmem)
      · exact Classical.byContradiction fun hle =>
          hne (String.le_antisymm (String.not_lt.mp hle) (String.not_lt.mp hlt))
      · exact List.rel_of_pairwise_cons h hmem

theorem foldl_fieldsInsert (out : List (String × Value)) {fields : List (String × Value)}
    (hnodup : ((fields ++ out).map Prod.fst).Nodup) (h : Ordered out) :
    Ordered (fields.foldl (fun out field => fieldsInsert field.1 field.2 out) out) ∧
      (fields.foldl (fun out field => fieldsInsert field.1 field.2 out) out).Perm
        (fields ++ out) := by
  induction fields generalizing out with
  | nil => exact ⟨h, .refl _⟩
  | cons field fields ih =>
      have hnew : ∀ other ∈ out, field.1 ≠ other.1 := fun other hmem heq =>
        (List.nodup_cons.mp hnodup).1
          (List.mem_map.mpr ⟨other, List.mem_append_right _ hmem, heq.symm⟩)
      have hinsert := fieldsInsert_perm field.2 hnew
      have hmove : (fields ++ fieldsInsert field.1 field.2 out).Perm (field :: fields ++ out) :=
        (hinsert.append_left fields).trans List.perm_middle
      obtain ⟨hordered, hperm⟩ := ih _ ((hmove.map Prod.fst).nodup_iff.mpr hnodup)
        (fieldsInsert_ordered hnew h)
      exact ⟨hordered, hperm.trans hmove⟩

theorem Ordered.nodup {fields : List (String × Value)} (h : Ordered fields) :
    (fields.map Prod.fst).Nodup := by
  refine List.pairwise_map.mpr (h.imp ?_)
  rintro a b hlt heq
  exact String.lt_irrefl b.1 (heq ▸ hlt)

theorem foldl_fieldsInsert_of_perm {fields fields' : List (String × Value)}
    (hordered : Ordered fields) (hperm : fields'.Perm fields) :
    fields'.foldl (fun out field => fieldsInsert field.1 field.2 out) [] = fields := by
  have hnodup : (fields'.map Prod.fst).Nodup := (hperm.map Prod.fst).nodup_iff.mpr hordered.nodup
  obtain ⟨hout, hout'⟩ := foldl_fieldsInsert [] (by simpa using hnodup) .nil
  rw [List.append_nil] at hout'
  exact List.Perm.eq_of_pairwise (fun a b _ _ hab hba => absurd hba (String.lt_asymm hab)) hout hordered
    (hout'.trans hperm)

/-! ## Written frames -/

def Value.ofNat (n : Nat) : Value := .integer n

theorem Value.asU64_ofNat {n : Nat} (h : n < 2 ^ 64) : (Value.ofNat n).asU64 = some n := by
  simp [Value.ofNat, Value.asU64]
  omega

def fieldEntry (field : String × Value) : Value × Value := (Value.ofString field.1, field.2)

theorem collectFields_of_perm {fields : List (String × Value)} {entries : List (Value × Value)}
    (hordered : Ordered fields) (hperm : entries.Perm (fields.map fieldEntry)) :
    collectFields (.map entries) = fields := by
  have hnamed : (entries.filterMap fun entry => entry.1.asStr.map (·, entry.2)).Perm fields := by
    refine (hperm.filterMap _).trans (.of_eq ?_)
    rw [List.filterMap_map]
    exact (List.filterMap_congr fun field _ => by simp [fieldEntry]).trans List.filterMap_some
  rw [← foldl_fieldsInsert_of_perm hordered hnamed, List.foldl_filterMap]
  refine congrArg (fun step => entries.foldl step []) (funext₂ fun out entry => ?_)
  cases entry.1.asStr <;> rfl

structure ServerError.Frame (err : ServerError) : Prop where
  code : err.code < 2 ^ 32
  errno : err.errno < 2 ^ 64
  line : ∀ line, err.line = some line → line < 2 ^ 64
  fields : Ordered err.fields
  cause : err.cause = []

def fieldUnder (err : ServerError) (fields : List (Value × Value)) (key : Nat) : Option Value :=
  if key = ErrorKey.type then some (Value.ofString err.kind)
  else if key = ErrorKey.file then err.file.map Value.ofString
  else if key = ErrorKey.line then err.line.map Value.ofNat
  else if key = ErrorKey.message then some (Value.ofString err.message)
  else if key = ErrorKey.errno then some (Value.ofNat err.errno)
  else if key = ErrorKey.errcode then some (Value.ofNat err.code)
  else if key = ErrorKey.fields then some (.map fields)
  else none

def knownEntries (err : ServerError) (fields : List (Value × Value)) : List (Value × Value) :=
  (List.range 7).filterMap fun key =>
    (fieldUnder err fields key).map fun value => (Value.ofNat key, value)

/-- No field of a frame stands under the key of this entry. -/
def Unknown (entry : Value × Value) : Prop := ∀ key ≤ 6, entry.1.asU64 ≠ some key

inductive WritesFrame (err : ServerError) : Value → Prop
  | mk {entries fields extra : List (Value × Value)}
      (hfields : fields.Perm (err.fields.map fieldEntry))
      (hextra : ∀ entry ∈ extra, Unknown entry)
      (hentries : entries.Perm (knownEntries err fields ++ extra)) :
      WritesFrame err (.map entries)

theorem filter_knownEntries (err : ServerError) (fields : List (Value × Value)) {key : Nat}
    (hkey : key ≤ 6) :
    (knownEntries err fields).filter (under key) =
      ((fieldUnder err fields key).map fun value => (Value.ofNat key, value)).toList := by
  have hunder {k : Nat} (hk : k ∈ List.range 7) (value : Value) :
      under key (Value.ofNat k, value) = decide (k = key) := by
    have hlt : k < 2 ^ 64 := Nat.lt_trans (List.mem_range.mp hk) (by decide)
    simp [under, Value.asU64_ofNat hlt]
  have hfilter : (knownEntries err fields).filter (under key) =
      ((List.range 7).filter (· = key)).filterMap fun key =>
        (fieldUnder err fields key).map fun value => (Value.ofNat key, value) := by
    rw [knownEntries, List.filter_filterMap, List.filterMap_filter]
    refine List.filterMap_congr fun k hk => ?_
    cases fieldUnder err fields k with
    | none => simp
    | some value => simp [Option.filter, hunder hk]
  have hsingle : ∀ key ≤ 6, (List.range 7).filter (· = key) = [key] := by decide
  rw [hfilter, hsingle key hkey]
  cases h : fieldUnder err fields key <;> simp [h]

theorem lastMatch_written {err : ServerError} {entries fields extra : List (Value × Value)}
    (hextra : ∀ entry ∈ extra, Unknown entry)
    (hentries : entries.Perm (knownEntries err fields ++ extra)) (key : Nat) (hkey : key ≤ 6) :
    lastMatch (under key) entries =
      (fieldUnder err fields key).map fun value => (Value.ofNat key, value) := by
  have hnone : extra.filter (under key) = [] :=
    List.filter_eq_nil_iff.mpr fun entry hmem => by
      simpa [under] using hextra entry hmem key hkey
  have hfilter : (knownEntries err fields ++ extra).filter (under key) =
      ((fieldUnder err fields key).map fun value => (Value.ofNat key, value)).toList := by
    rw [List.filter_append, hnone, List.append_nil, filter_knownEntries err fields hkey]
  cases hfield : fieldUnder err fields key with
  | none =>
      rw [hfield] at hfilter
      exact lastMatch_none_of_perm hentries hfilter
  | some value =>
      rw [hfield] at hfilter
      exact lastMatch_of_perm hentries hfilter

theorem frameOf_written {err : ServerError} {entries fields extra : List (Value × Value)}
    (h : err.Frame) (hfields : fields.Perm (err.fields.map fieldEntry))
    (hextra : ∀ entry ∈ extra, Unknown entry)
    (hentries : entries.Perm (knownEntries err fields ++ extra)) : frameOf entries = err := by
  obtain ⟨code, message, kind, file, line, errno, fields', cause⟩ := err
  have herrcode : lastMatch (under ErrorKey.errcode) entries =
      some (Value.ofNat ErrorKey.errcode, Value.ofNat code) :=
    lastMatch_written hextra hentries ErrorKey.errcode (by decide)
  have hmessage : lastMatch (under ErrorKey.message) entries =
      some (Value.ofNat ErrorKey.message, Value.ofString message) :=
    lastMatch_written hextra hentries ErrorKey.message (by decide)
  have htype : lastMatch (under ErrorKey.type) entries =
      some (Value.ofNat ErrorKey.type, Value.ofString kind) :=
    lastMatch_written hextra hentries ErrorKey.type (by decide)
  have hfile : lastMatch (under ErrorKey.file) entries =
      (file.map Value.ofString).map fun value => (Value.ofNat ErrorKey.file, value) :=
    lastMatch_written hextra hentries ErrorKey.file (by decide)
  have hline : lastMatch (under ErrorKey.line) entries =
      (line.map Value.ofNat).map
        fun value => (Value.ofNat ErrorKey.line, value) :=
    lastMatch_written hextra hentries ErrorKey.line (by decide)
  have herrno : lastMatch (under ErrorKey.errno) entries =
      some (Value.ofNat ErrorKey.errno, Value.ofNat errno) :=
    lastMatch_written hextra hentries ErrorKey.errno (by decide)
  have hfieldMap : lastMatch (under ErrorKey.fields) entries =
      some (Value.ofNat ErrorKey.fields, .map fields) :=
    lastMatch_written hextra hentries ErrorKey.fields (by decide)
  have hcode : codeOf (Value.ofNat code) = some code := by
    rw [codeOf, Value.asU64_ofNat (Nat.lt_trans h.code (by decide)),
      Option.filter_some_pos (by simpa using h.code)]
  have hlineOf : (((line.map Value.ofNat).map
      fun value => (Value.ofNat ErrorKey.line, value)).map
        fun entry => entry.2.asU64).getD none = line := by
    cases line with
    | none => rfl
    | some line => simp only [Option.map_some, Option.getD_some, Value.asU64_ofNat (h.line line rfl)]
  have hfileOf : (((file.map Value.ofString).map
      fun value => (Value.ofNat ErrorKey.file, value)).map
        fun entry => entry.2.asStr).getD none = file := by
    cases file with
    | none => rfl
    | some file => exact Value.asStr_ofString file
  simp only [frameOf, herrcode, hmessage, htype, hfile, hline, herrno, hfieldMap, hlineOf, hfileOf,
    Option.map_some, Option.getD_some, hcode, Value.asStr_ofString, Value.asU64_ofNat h.errno,
    collectFields_of_perm h.fields hfields, ServerError.mk.injEq, true_and]
  exact h.cause.symm

theorem decodeErrorFrame_written {err : ServerError} {value : Value} (h : err.Frame)
    (hwrites : WritesFrame err value) : decodeErrorFrame value = .ok err := by
  obtain ⟨hfields, hextra, hentries⟩ := hwrites
  rw [decodeErrorFrame_eq]
  exact congrArg Except.ok (frameOf_written h hfields hextra hentries)

def stackValue (frames : List Value) : Value :=
  .map [(Value.ofNat ErrorKey.stack, .array frames)]

theorem framesOf_stackValue (frames : List Value) : framesOf (stackValue frames) = some frames := by
  have hkey : (Value.ofNat ErrorKey.stack).asU64 = some ErrorKey.stack :=
    Value.asU64_ofNat (by decide)
  simp [framesOf, stackValue, Value.asMap, Value.asArray, hkey]

theorem mapM_written {errs : List ServerError} {values : List Value}
    (hframes : ∀ err ∈ errs, err.Frame) (hwrites : List.Forall₂ WritesFrame errs values) :
    values.mapM decodeErrorFrame = .ok errs := by
  induction hwrites with
  | nil => rfl
  | cons hfirst _ ih =>
      obtain ⟨hframe, hrest⟩ := List.forall_mem_cons.mp hframes
      rw [List.mapM_cons]
      exact bind_ok.mpr ⟨_, decodeErrorFrame_written hframe hfirst,
        bind_ok.mpr ⟨_, ih hrest, rfl⟩⟩

/-- A stack decodes to its outermost frame, with the others as the cause. -/
theorem decodes_error_stack {rmp : Rmp} {bytes : Bytes} {outer : ServerError}
    {rest : List ServerError} {values : List Value} (code : Nat)
    (hread : rmp.readValue bytes = .ok (stackValue values))
    (hframes : ∀ err ∈ outer :: rest, err.Frame)
    (hwrites : List.Forall₂ WritesFrame (outer :: rest) values) :
    decodeErrorMap rmp bytes code = .ok { outer with cause := rest } := by
  rw [decodeErrorMap_eq hread (framesOf_stackValue values), mapM_written hframes hwrites]
  rfl

def reversedFrame (err : ServerError) : Value :=
  .map (knownEntries err (err.fields.map fieldEntry).reverse ++ [(Value.ofNat 9, Value.nil)]).reverse

theorem reversedFrame_writes (err : ServerError) : WritesFrame err (reversedFrame err) := by
  refine .mk (List.reverse_perm _) (fun entry hmem => ?_) (List.reverse_perm _)
  obtain rfl := List.mem_singleton.mp hmem
  intro key hkey h
  rw [Value.asU64_ofNat (by decide)] at h
  exact absurd (Option.some.inj h) (by omega)

def sampleOuter : ServerError :=
  ⟨10, "m", "A", none, some 7, 0, [("a", .nil), ("b", .boolean true)], []⟩

def sampleCause : ServerError := ⟨11, "n", "B", some "f", none, 5, [], []⟩

def stackBytes : Bytes :=
  [0x81, 0x00, 0x92,
    0x87, 0x09, 0xc0, 0x06, 0x82, 0xa1, 0x62, 0xc3, 0xa1, 0x61, 0xc0, 0x05, 0x0a, 0x04, 0x00,
    0x03, 0xa1, 0x6d, 0x02, 0x07, 0x00, 0xa1, 0x41,
    0x87, 0x09, 0xc0, 0x06, 0x80, 0x05, 0x0b, 0x04, 0x05, 0x03, 0xa1, 0x6e, 0x01, 0xa1, 0x66,
    0x00, 0xa1, 0x42]

def stackRmp : Rmp :=
  { sampleRmp with
    readValue := fun bytes =>
      if bytes = stackBytes then
        .ok (stackValue [reversedFrame sampleOuter, reversedFrame sampleCause])
      else sampleRmp.readValue bytes }

theorem decodes_error_stack_sample :
    decodeErrorMap stackRmp stackBytes 7 = .ok { sampleOuter with cause := [sampleCause] } := by
  have hread : stackRmp.readValue stackBytes =
      .ok (stackValue [reversedFrame sampleOuter, reversedFrame sampleCause]) := by
    simp [stackRmp]
  refine decodes_error_stack 7 hread (fun err hmem => ?_)
    (.cons (reversedFrame_writes _) (.cons (reversedFrame_writes _) .nil))
  have hordered : Ordered sampleOuter.fields := by
    refine List.pairwise_pair.mpr ?_
    change "a".toList < "b".toList
    decide
  simp only [List.mem_cons, List.not_mem_nil, or_false] at hmem
  obtain rfl | rfl := hmem
  · exact ⟨by decide, by decide, by simp [sampleOuter], hordered, rfl⟩
  · exact ⟨by decide, by decide, by simp [sampleCause], .nil, rfl⟩

end Tarant
