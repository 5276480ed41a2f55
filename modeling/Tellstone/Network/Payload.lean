import Tellstone.Lib.Cursor
import Tellstone.Network.Codec

/-! The payloads of the AUTH, ROLE and ACL frames: counted lists of tokens, each behind its
length in two bytes. -/
namespace Tellstone.Network
open ByteStream Cursor Incremental

def maxUint16 : Nat := 65535

def encodeToken (buf token : Bytes) : Option Bytes :=
  if maxUint16 < token.length then none else some (buf ++ putUintBE 2 token.length ++ token)

def encodeCounted {α : Type} (encode : Bytes → α → Option Bytes) (buf : Bytes) (items : List α) :
    Option Bytes :=
  if maxUint16 < items.length then none
  else items.foldlM encode (buf ++ putUintBE 2 items.length)

def encodeList : Bytes → List Bytes → Option Bytes := encodeCounted encodeToken

def encodeRoleArgs (args : List Bytes) : Option Bytes :=
  if maxUint16 < args.length then none
  else if args.any fun a => maxUint16 < a.length then none
  else
    some (args.foldl (fun buf a => buf ++ putUintBE 2 a.length ++ a) (putUintBE 2 args.length))

structure RoleListEntry where
  name : Bytes
  commands : List Bytes
  namespaces : List Bytes
  deriving DecidableEq, Repr

def encodeRoleListEntry (buf : Bytes) (e : RoleListEntry) : Option Bytes :=
  (encodeToken buf e.name).bind fun buf =>
  (encodeList buf e.commands).bind fun buf =>
  encodeList buf e.namespaces

def encodeRoleListResponse (entries : List RoleListEntry) : Option Bytes :=
  encodeCounted encodeRoleListEntry [] entries

/-- An empty role says that the default applies. -/
structure AclUser where
  username : Bytes
  role : Bytes
  hasPass : Bool
  commands : List Bytes
  namespaces : List Bytes
  deriving DecidableEq, Repr

def encodeFlag (buf : Bytes) (flag : Bool) : Option Bytes := some (buf ++ [if flag then 1 else 0])

def encodeAclUser (buf : Bytes) (u : AclUser) : Option Bytes :=
  (encodeToken buf u.username).bind fun buf =>
  (encodeToken buf u.role).bind fun buf =>
  (encodeFlag buf u.hasPass).bind fun buf =>
  (encodeList buf u.commands).bind fun buf =>
  encodeList buf u.namespaces

def encodeAclListResponse (users : List AclUser) : Option Bytes :=
  encodeCounted encodeAclUser [] users

structure AuthLogEntry where
  timestamp : Bytes
  username : Bytes
  remoteAddr : Bytes
  reason : Bytes
  deriving DecidableEq, Repr

def encodeAuthLogEntry (buf : Bytes) (e : AuthLogEntry) : Option Bytes :=
  (encodeToken buf e.timestamp).bind fun buf =>
  (encodeToken buf e.username).bind fun buf =>
  (encodeToken buf e.remoteAddr).bind fun buf =>
  encodeToken buf e.reason

def encodeAclLogResponse (entries : List AuthLogEntry) : Option Bytes :=
  encodeCounted encodeAuthLogEntry [] entries

def authUserPayload (username password : Bytes) : Option Bytes :=
  if maxUint16 < username.length ∨ maxUint16 < password.length then none
  else
    some (putUintBE 2 username.length ++ username ++ putUintBE 2 password.length ++ password)

def decodeUint16 : Decoder UInt8 Nat := (Decoder.field 2).andThen fun len => .done (uintBE len)

def decodeU16String : Decoder UInt8 Bytes := decodeUint16.andThen Decoder.field

def decodeCounted {α : Type} (decode : Decoder UInt8 α) : Decoder UInt8 (List α) :=
  decodeUint16.andThen fun count => .times count decode

def decodeStringList : Decoder UInt8 (List Bytes) := decodeCounted decodeU16String

def decodeByteList : Decoder UInt8 (List Bytes) := decodeCounted decodeU16String

def decodeRoleArgs (payload : Bytes) : Except Stop (List Bytes) := decodeByteList.exact payload

def decodeRoleListEntry : Decoder UInt8 RoleListEntry :=
  decodeU16String.andThen fun name =>
  decodeStringList.andThen fun commands =>
  decodeByteList.andThen fun namespaces =>
  .done ⟨name, commands, namespaces⟩

def decodeRoleListResponse (payload : Bytes) : Except Stop (List RoleListEntry) :=
  (decodeCounted decodeRoleListEntry).exact payload

def decodeFlag : Decoder UInt8 Bool := (Decoder.field 1).andThen fun byte => .done (byte == [1])

def decodeAclUser : Decoder UInt8 AclUser :=
  decodeU16String.andThen fun username =>
  decodeU16String.andThen fun role =>
  decodeFlag.andThen fun hasPass =>
  decodeStringList.andThen fun commands =>
  decodeByteList.andThen fun namespaces =>
  .done ⟨username, role, hasPass, commands, namespaces⟩

def decodeAclListResponse (payload : Bytes) : Except Stop (List AclUser) :=
  (decodeCounted decodeAclUser).exact payload

def decodeAuthLogEntry : Decoder UInt8 AuthLogEntry :=
  decodeU16String.andThen fun timestamp =>
  decodeU16String.andThen fun username =>
  decodeU16String.andThen fun remoteAddr =>
  decodeU16String.andThen fun reason =>
  .done ⟨timestamp, username, remoteAddr, reason⟩

def decodeAclLogResponse (payload : Bytes) : Except Stop (List AuthLogEntry) :=
  (decodeCounted decodeAuthLogEntry).exact payload

def parseAuthPayloadSlices (value : Bytes) : Except Stop (Bytes × Bytes) :=
  if value.length < 2 then .error .refused
  else
    (slice value 0 2).bind fun len =>
    let usernameLen := uintBE len
    if value.length < 2 + usernameLen + 2 then .error .refused
    else
      (slice value 2 (2 + usernameLen)).bind fun username =>
      (slice value (2 + usernameLen) (2 + usernameLen + 2)).bind fun len =>
      let passwordLen := uintBE len
      if value.length < 2 + usernameLen + 2 + passwordLen then .error .refused
      else
        (slice value (2 + usernameLen + 2) (2 + usernameLen + 2 + passwordLen)).bind fun password =>
        .ok (username, password)

def Token (token : Bytes) : Prop := token.length ≤ maxUint16

instance (token : Bytes) : Decidable (Token token) :=
  inferInstanceAs (Decidable (token.length ≤ maxUint16))

def tokenText (token : Bytes) : Bytes := putUintBE 2 token.length ++ token

def Counted {α : Type} (fits : α → Prop) (items : List α) : Prop :=
  items.length ≤ maxUint16 ∧ ∀ item ∈ items, fits item

def countedText {α : Type} (text : α → Bytes) (items : List α) : Bytes :=
  putUintBE 2 items.length ++ items.flatMap text

theorem decodeUint16_tracks :
    ∃ parser, Tracks decodeUint16 parser ∧
      ∀ {n}, n ≤ maxUint16 → Reads parser (putUintBE 2 n) n := by
  refine ⟨_, (Tracks.field 2).andThen fun len => .done (uintBE len), fun {n} small => ?_⟩
  have reads : Reads (exactly () 2) (putUintBE 2 n) (putUintBE 2 n) :=
    .exactly (putUintBE_length 2 n)
  have value : uintBE (putUintBE 2 n) = n := by
    refine uintBE_putUintBE ?_
    rw [maxUint16] at small
    omega
  have done := reads.andDone uintBE
  rwa [value] at done

theorem token_format : Format encodeToken decodeU16String Token tokenText where
  appends buf token out := by
    rw [encodeToken, Token, tokenText]
    split
    · rename_i long
      constructor
      · intro encoded
        cases encoded
      · rintro ⟨short, -⟩
        omega
    · rename_i short
      rw [Option.some.injEq, List.append_assoc]
      exact ⟨fun same => ⟨Nat.le_of_not_lt short, same.symm⟩, fun fits => fits.2.symm⟩
  decodes := by
    obtain ⟨parser, tracks, reads⟩ := decodeUint16_tracks
    exact ⟨_, tracks.andThen fun n => .field n, fun fits => (reads fits).andThen (.exactly rfl)⟩

theorem counted_format {α : Type} {encode : Bytes → α → Option Bytes} {decode : Decoder UInt8 α}
    {fits : α → Prop} {text : α → Bytes} (format : Format encode decode fits text) :
    Format (encodeCounted encode) (decodeCounted decode) (Counted fits) (countedText text) where
  appends buf items out := by
    rw [encodeCounted, Counted, countedText]
    split
    · rename_i many
      constructor
      · intro encoded
        cases encoded
      · rintro ⟨⟨few, -⟩, -⟩
        omega
    · rename_i few
      rw [format.appends.foldlM, List.append_assoc, and_assoc]
      exact ⟨fun fine => ⟨Nat.le_of_not_lt few, fine⟩, And.right⟩
  decodes := by
    obtain ⟨counter, counts, number⟩ := decodeUint16_tracks
    obtain ⟨parser, tracks, reads⟩ := format.decodes
    exact ⟨_, counts.andThen fun n => tracks.times n, fun fine =>
      (number fine.1).andThen (.several fun item mem => reads (fine.2 item mem))⟩

theorem list_format : Format encodeList decodeStringList (Counted Token) (countedText tokenText) :=
  counted_format token_format

theorem encodeRoleArgs_eq (args : List Bytes) : encodeRoleArgs args = encodeList [] args := by
  have appended (buf : Bytes) (fine : ∀ a ∈ args, Token a) :
      args.foldlM encodeToken buf =
        some (args.foldl (fun buf a => buf ++ putUintBE 2 a.length ++ a) buf) := by
    induction args generalizing buf with
    | nil => rfl
    | cons a args ih =>
      have first : encodeToken buf a = some (buf ++ putUintBE 2 a.length ++ a) :=
        if_neg (Nat.not_lt.mpr (fine a List.mem_cons_self))
      rw [List.foldlM_cons, first, Option.bind_eq_bind, Option.bind_some, List.foldl_cons]
      exact ih _ fun b mem => fine b (List.mem_cons_of_mem _ mem)
  rw [encodeRoleArgs, encodeList, encodeCounted]
  by_cases many : maxUint16 < args.length
  · rw [if_pos many, if_pos many]
  · rw [if_neg many, if_neg many]
    by_cases long : (args.any fun a => maxUint16 < a.length) = true
    · rw [if_pos long]
      cases encoded : args.foldlM encodeToken ([] ++ putUintBE 2 args.length) with
      | none => rfl
      | some out =>
        have fine := ((token_format.appends.foldlM _ _ _).mp encoded).1
        obtain ⟨a, mem, exceeds⟩ := List.any_eq_true.mp long
        exact absurd (fine a mem) (Nat.not_le.mpr (of_decide_eq_true exceeds))
    · rw [if_neg long]
      refine (appended _ fun a mem => ?_).symm
      refine Nat.le_of_not_lt fun exceeds => long ?_
      exact List.any_eq_true.mpr ⟨a, mem, decide_eq_true exceeds⟩

def RoleListEntry.Fits (e : RoleListEntry) : Prop :=
  Token e.name ∧ Counted Token e.commands ∧ Counted Token e.namespaces

def RoleListEntry.text (e : RoleListEntry) : Bytes :=
  tokenText e.name ++ (countedText tokenText e.commands ++ countedText tokenText e.namespaces)

theorem roleListEntry_format :
    Format encodeRoleListEntry decodeRoleListEntry RoleListEntry.Fits RoleListEntry.text where
  appends :=
    (token_format.appends.part RoleListEntry.name).andThen
      ((list_format.appends.part RoleListEntry.commands).andThen
        (list_format.appends.part RoleListEntry.namespaces))
  decodes := by
    obtain ⟨token, tracks, reads⟩ := token_format.decodes
    obtain ⟨list, lists, items⟩ := list_format.decodes
    refine ⟨_, tracks.andThen fun name => lists.andThen fun commands =>
      lists.andThen fun namespaces => .done _, ?_⟩
    intro e fits
    exact (reads fits.1).andThen ((items fits.2.1).andThen ((items fits.2.2).andDone _))

theorem flag_format : Format encodeFlag decodeFlag (fun _ => True) fun flag =>
    [if flag then 1 else 0] where
  appends buf flag out := by
    rw [encodeFlag, Option.some.injEq, true_and, eq_comm]
  decodes := by
    refine ⟨_, (Tracks.field 1).andThen fun byte => .done _, ?_⟩
    intro flag _
    have byte : Reads (exactly () 1) [if flag then (1 : UInt8) else 0] _ := .exactly rfl
    have read := byte.andDone (· == [1])
    cases flag <;> exact read

def AclUser.Fits (u : AclUser) : Prop :=
  Token u.username ∧ Token u.role ∧ Counted Token u.commands ∧ Counted Token u.namespaces

def AclUser.text (u : AclUser) : Bytes :=
  tokenText u.username ++ (tokenText u.role ++ ([if u.hasPass then 1 else 0] ++
    (countedText tokenText u.commands ++ countedText tokenText u.namespaces)))

theorem aclUser_format : Format encodeAclUser decodeAclUser AclUser.Fits AclUser.text where
  appends buf u out := by
    have all := (token_format.appends.part AclUser.username).andThen
      ((token_format.appends.part AclUser.role).andThen
        ((flag_format.appends.part AclUser.hasPass).andThen
          ((list_format.appends.part AclUser.commands).andThen
            (list_format.appends.part AclUser.namespaces)))) buf u out
    simp only [true_and] at all
    exact all
  decodes := by
    obtain ⟨token, tracks, reads⟩ := token_format.decodes
    obtain ⟨flag, flags, bit⟩ := flag_format.decodes
    obtain ⟨list, lists, items⟩ := list_format.decodes
    refine ⟨_, tracks.andThen fun username => tracks.andThen fun role =>
      flags.andThen fun hasPass => lists.andThen fun commands =>
      lists.andThen fun namespaces => .done _, ?_⟩
    intro u fits
    exact (reads fits.1).andThen ((reads fits.2.1).andThen ((bit trivial).andThen
      ((items fits.2.2.1).andThen ((items fits.2.2.2).andDone _))))

def AuthLogEntry.Fits (e : AuthLogEntry) : Prop :=
  Token e.timestamp ∧ Token e.username ∧ Token e.remoteAddr ∧ Token e.reason

def AuthLogEntry.text (e : AuthLogEntry) : Bytes :=
  tokenText e.timestamp ++ (tokenText e.username ++ (tokenText e.remoteAddr ++ tokenText e.reason))

theorem authLogEntry_format :
    Format encodeAuthLogEntry decodeAuthLogEntry AuthLogEntry.Fits AuthLogEntry.text where
  appends :=
    (token_format.appends.part AuthLogEntry.timestamp).andThen
      ((token_format.appends.part AuthLogEntry.username).andThen
        ((token_format.appends.part AuthLogEntry.remoteAddr).andThen
          (token_format.appends.part AuthLogEntry.reason)))
  decodes := by
    obtain ⟨token, tracks, reads⟩ := token_format.decodes
    refine ⟨_, tracks.andThen fun timestamp => tracks.andThen fun username =>
      tracks.andThen fun remoteAddr => tracks.andThen fun reason => .done _, ?_⟩
    intro e fits
    exact (reads fits.1).andThen ((reads fits.2.1).andThen ((reads fits.2.2.1).andThen
      ((reads fits.2.2.2).andDone _)))

theorem parseAuthPayloadSlices_eq (value : Bytes) :
    parseAuthPayloadSlices value = (parseAuthPayload value).elim (.error .refused) .ok := by
  rw [parseAuthPayloadSlices, parseAuthPayload]
  by_cases short : value.length < 2
  · rw [if_pos short, if_pos short]
    rfl
  rw [if_neg short, if_neg short, slice_ok (Nat.zero_le 2) (Nat.le_of_not_lt short)]
  simp only [Except.bind, List.drop_zero, Nat.sub_zero]
  by_cases cut : value.length < 2 + uintBE (value.take 2) + 2
  · rw [if_pos cut, if_pos cut]
    rfl
  rw [if_neg cut, if_neg cut, slice_ok (Nat.le_add_right _ _) (by omega),
    slice_ok (Nat.le_add_right _ _) (Nat.le_of_not_lt cut)]
  simp only [Nat.add_sub_cancel_left]
  split
  · rfl
  · rename_i whole
    rw [slice_ok (Nat.le_add_right _ _) (Nat.le_of_not_lt whole), Nat.add_sub_cancel_left,
      List.drop_drop]
    rfl

theorem decodeU16String_eq (payload : Bytes) (pos : Nat) :
    decodeU16String payload pos =
      if payload.length < pos + 2 then .error .refused
      else if payload.length < pos + 2 + uintBE ((payload.drop pos).take 2) then .error .refused
      else .ok ((payload.drop (pos + 2)).take (uintBE ((payload.drop pos).take 2)),
        pos + 2 + uintBE ((payload.drop pos).take 2)) := by
  rw [decodeU16String, Decoder.andThen, decodeUint16, Decoder.andThen, Decoder.field]
  by_cases short : payload.length < pos + 2
  · rw [if_pos short, if_pos short]
  rw [if_neg short, if_neg short, slice_ok (Nat.le_add_right _ _) (Nat.le_of_not_lt short),
    Nat.add_sub_cancel_left]
  simp only [Except.map, Decoder.done, Decoder.field]
  split
  · rfl
  · rename_i whole
    rw [slice_ok (Nat.le_add_right _ _) (Nat.le_of_not_lt whole), Nat.add_sub_cancel_left]

def decodeCredentials : Decoder UInt8 (Bytes × Bytes) :=
  decodeU16String.andThen fun username => decodeU16String.andThen fun password =>
  .done (username, password)

theorem parseAuthPayload_eq (value : Bytes) :
    parseAuthPayload value = (decodeCredentials value 0).toOption.map Prod.fst := by
  rw [parseAuthPayload, decodeCredentials, Decoder.andThen, decodeU16String_eq, Nat.zero_add,
    List.drop_zero]
  by_cases short : value.length < 2
  · rw [if_pos short, if_pos short]
    rfl
  rw [if_neg short, if_neg short]
  by_cases cut : value.length < 2 + uintBE (value.take 2)
  · rw [if_pos cut, if_pos (by omega)]
    rfl
  rw [if_neg cut]
  simp only [Decoder.andThen, decodeU16String_eq]
  by_cases none : value.length < 2 + uintBE (value.take 2) + 2
  · rw [if_pos none, if_pos none]
    rfl
  rw [if_neg none, if_neg none]
  split
  · rfl
  · rw [List.drop_drop]
    rfl

theorem decodeCredentials_tracks :
    ∃ parser, Tracks decodeCredentials parser ∧ ∀ {username password}, Token username →
      Token password →
      Reads parser (tokenText username ++ tokenText password) (username, password) := by
  obtain ⟨token, tracks, reads⟩ := token_format.decodes
  refine ⟨_, tracks.andThen fun username => tracks.andThen fun password => .done _, ?_⟩
  intro username password name word
  exact (reads name).andThen ((reads word).andDone _)

theorem auth_inverts {username password payload : Bytes}
    (packed : authUserPayload username password = some payload) :
    parseAuthPayload payload = some (username, password) ∧
      ∀ front, front <+: payload → front ≠ payload → parseAuthPayload front = none := by
  obtain ⟨parser, tracks, reads⟩ := decodeCredentials_tracks
  rw [authUserPayload] at packed
  split at packed
  · cases packed
  rename_i fits
  have both : Token username ∧ Token password := by
    rw [Token, Token]
    omega
  have read := reads both.1 both.2
  have text : payload = tokenText username ++ tokenText password := by
    rw [← Option.some.inj packed, tokenText, tokenText, List.append_assoc]
  subst text
  constructor
  · have whole := tracks.decodes read []
    rw [List.append_nil] at whole
    rw [parseAuthPayload_eq, whole]
    rfl
  · intro front start cut
    rw [parseAuthPayload_eq, tracks.refuses_cut read start cut]
    rfl

/-- Every encoding is inverted by its decoder, which refuses every cut of it and, for the lists,
every extension. No decoder reads out of range. -/
theorem payload_codecs :
    (∀ args payload, encodeRoleArgs args = some payload → Inverts decodeRoleArgs payload args) ∧
    (∀ entries payload, encodeRoleListResponse entries = some payload →
      Inverts decodeRoleListResponse payload entries) ∧
    (∀ users payload, encodeAclListResponse users = some payload →
      Inverts decodeAclListResponse payload users) ∧
    (∀ entries payload, encodeAclLogResponse entries = some payload →
      Inverts decodeAclLogResponse payload entries) ∧
    (∀ username password payload, authUserPayload username password = some payload →
      parseAuthPayload payload = some (username, password) ∧
        ∀ front, front <+: payload → front ≠ payload → parseAuthPayload front = none) ∧
    ∀ bytes, decodeRoleArgs bytes ≠ .error .outOfRange ∧
      decodeRoleListResponse bytes ≠ .error .outOfRange ∧
      decodeAclListResponse bytes ≠ .error .outOfRange ∧
      decodeAclLogResponse bytes ≠ .error .outOfRange ∧
      parseAuthPayloadSlices bytes = (parseAuthPayload bytes).elim (.error .refused) .ok := by
  refine ⟨fun args payload encoded => ?_, fun _ _ => (counted_format roleListEntry_format).inverts,
    fun _ _ => (counted_format aclUser_format).inverts,
    fun _ _ => (counted_format authLogEntry_format).inverts, fun _ _ _ => auth_inverts,
    fun bytes => ⟨list_format.inRange bytes, (counted_format roleListEntry_format).inRange bytes,
      (counted_format aclUser_format).inRange bytes,
      (counted_format authLogEntry_format).inRange bytes, parseAuthPayloadSlices_eq bytes⟩⟩
  rw [encodeRoleArgs_eq] at encoded
  exact list_format.inverts encoded

theorem payload_codecs_two : encodeRoleArgs [[117], []] = some [0, 2, 0, 1, 117, 0, 0] ∧
    Inverts decodeRoleArgs [0, 2, 0, 1, 117, 0, 0] [[117], []] :=
  ⟨by decide, payload_codecs.1 _ _ (by decide)⟩

end Tellstone.Network
