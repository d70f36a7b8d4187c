import Qev.Pairing.PeerStore

/-! The invite of a pairing, as it stands in the QR code (`invite.rs`). Texts of
errors end where the source appends a value in its `Debug` format or the detail
of a library. -/

namespace Qev.Pairing

open Desktop (utf8)

def INVITE_SCHEMA : String := "QEV-PAIRING-V1"
def NAME_MAX_LEN : Nat := 32
def DEVICE_MAX_LEN : Nat := 32
def ADDRS_MAX : Nat := 8
def STATIC_KEY_BYTES : Nat := 32

/-- Fifteen minutes, in seconds. -/
def CLOCK_SKEW_TOLERANCE : Nat := 15 * 60

structure PairingInvite where
  schema : String
  version : String
  static_pk : Bytes
  name : String
  device : String
  addrs : List String
  created_at : String
  expires_at : String
  deriving DecidableEq, Repr

/-- What the code takes from other crates and the standard library: `ciborium` at
the type above, the reading of a time stamp as seconds, and the reading of a
socket address. -/
structure Parsers (Addr : Type) where
  from_reader : Bytes → Option PairingInvite
  parse_iso8601 : String → Option Nat
  parse_addr : String → Option Addr

/-- The general category Cc. -/
def is_control (c : Char) : Bool := c.toNat < 32 || (127 ≤ c.toNat && c.toNat < 160)

/-- The property `White_Space`. -/
def is_whitespace (c : Char) : Bool :=
  (9 ≤ c.toNat && c.toNat ≤ 13) || c.toNat = 0x20 || c.toNat = 0x85 || c.toNat = 0xA0 ||
    c.toNat = 0x1680 || (0x2000 ≤ c.toNat && c.toNat ≤ 0x200A) || c.toNat = 0x2028 ||
    c.toNat = 0x2029 || c.toNat = 0x202F || c.toNat = 0x205F || c.toNat = 0x3000

def trim (s : String) : List Char :=
  ((s.toList.dropWhile is_whitespace).reverse.dropWhile is_whitespace).reverse

def refuse_if (c : Prop) [Decidable c] (e : String) : Except String Unit :=
  if c then .error e else .ok ()

theorem refuse_if_eq_ok {c : Prop} [Decidable c] {e : String} : refuse_if c e = .ok () ↔ ¬ c := by
  unfold refuse_if
  by_cases bad : c
  · simp [bad]
  · simp [bad]

namespace PairingInvite

def validate_name (s field : String) : Except String Unit :=
  if s = "" then .error ("malformed invite: " ++ field ++ " must be non-empty")
  else
    let max := if field = "name" then NAME_MAX_LEN else DEVICE_MAX_LEN
    if (utf8 s).length > max then
      .error s!"malformed invite: {field} too long: {(utf8 s).length} bytes (max {max})"
    else if s.toList.any is_control then
      .error ("malformed invite: " ++ field ++ " contains control characters")
    else .ok ()

variable {Addr : Type} (parsers : Parsers Addr)

def validate (invite : PairingInvite) : Except String Unit := do
  refuse_if (invite.schema ≠ INVITE_SCHEMA) "malformed invite: unsupported invite schema"
  refuse_if (invite.version = "") "malformed invite: version must be non-empty"
  refuse_if (invite.static_pk.length ≠ STATIC_KEY_BYTES)
    s!"malformed invite: static_pk must be 32 bytes (got {invite.static_pk.length})"
  validate_name invite.name "name"
  validate_name invite.device "device"
  refuse_if (invite.addrs = []) "malformed invite: addrs must be non-empty"
  refuse_if (invite.addrs.length > ADDRS_MAX)
    s!"malformed invite: too many addrs: {invite.addrs.length} (max {ADDRS_MAX})"
  refuse_if (invite.addrs.any fun a => (parsers.parse_addr a).isNone)
    "malformed invite: invalid addr"
  refuse_if (parsers.parse_iso8601 invite.created_at).isNone "malformed invite: bad created_at"
  refuse_if (parsers.parse_iso8601 invite.expires_at).isNone "malformed invite: bad expires_at"

def check_expiry (invite : PairingInvite) (now : Nat) : Except String Unit :=
  match parsers.parse_iso8601 invite.expires_at with
  | none => .error "malformed invite: bad expires_at"
  | some expires =>
    if now ≥ expires + CLOCK_SKEW_TOLERANCE then
      .error ("invite expired at " ++ invite.expires_at)
    else .ok ()

def static_pk_array (invite : PairingInvite) : Except String (FixedBytes 32) :=
  if h : invite.static_pk.length = 32 then .ok ⟨invite.static_pk, h⟩
  else .error s!"malformed invite: static_pk wrong length: {invite.static_pk.length}"

def addrs_parsed (invite : PairingInvite) : Except String (List Addr) :=
  invite.addrs.mapM fun s =>
    match parsers.parse_addr s with
    | none => .error "malformed invite: invalid addr"
    | some addr => .ok addr

def decode_cbor (bytes : Bytes) : Except String PairingInvite :=
  match parsers.from_reader bytes with
  | none => .error "cbor: decode"
  | some invite => do
    invite.validate parsers
    return invite

def decode_qr (qr_text : String) : Except String PairingInvite :=
  match Base64.decodeCanonical (trim qr_text) with
  | none => .error "malformed invite: base64url decode"
  | some cbor => decode_cbor parsers cbor

/-! ## What an invite that decodes is like -/

theorem validate_name_eq_ok {s field : String} : validate_name s field = .ok () ↔
    s ≠ "" ∧ (utf8 s).length ≤ 32 ∧ s.toList.all fun c => !is_control c := by
  have limit : (if field = "name" then NAME_MAX_LEN else DEVICE_MAX_LEN) = 32 := by
    split <;> rfl
  unfold validate_name
  rw [limit]
  by_cases empty : s = ""
  · simp [empty]
  · by_cases long : (utf8 s).length > 32
    · simp [empty, long]
    · by_cases control : s.toList.any is_control
      · simp only [empty, long, control, if_true, if_false, ne_eq, not_false_eq_true, true_and,
          Nat.not_lt.mp long]
        obtain ⟨c, mem, bad⟩ := List.any_eq_true.mp control
        simp only [reduceCtorEq, false_iff, List.all_eq_true, not_forall]
        exact ⟨c, mem, by simp [bad]⟩
      · have clean : s.toList.all fun c => !is_control c := by
          simpa [List.any_eq_true] using control
        simp [empty, long, control, clean, Nat.not_lt.mp long]

/-- The name and the device of a record, as the rules for invites have them. -/
def ValidLabels (name device : String) : Prop :=
  validate_name name "name" = .ok () ∧ validate_name device "device" = .ok ()

instance (name device : String) : Decidable (ValidLabels name device) :=
  inferInstanceAs (Decidable (_ ∧ _))

variable {parsers}

theorem labels_of_validate {invite : PairingInvite} (h : invite.validate parsers = .ok ()) :
    invite.static_pk.length = 32 ∧ ValidLabels invite.name invite.device := by
  obtain ⟨_, -, h⟩ := bind_eq_ok.mp h
  obtain ⟨_, -, h⟩ := bind_eq_ok.mp h
  obtain ⟨_, whole, h⟩ := bind_eq_ok.mp h
  obtain ⟨_, name, h⟩ := bind_eq_ok.mp h
  obtain ⟨_, device, -⟩ := bind_eq_ok.mp h
  exact ⟨not_not.mp (refuse_if_eq_ok.mp whole), name, device⟩

theorem decode_qr_eq_ok {qr_text : String} {invite : PairingInvite}
    (h : decode_qr parsers qr_text = .ok invite) : invite.validate parsers = .ok () := by
  unfold decode_qr at h
  split at h
  · cases h
  · unfold decode_cbor at h
    split at h
    · cases h
    · obtain ⟨u, valid, same⟩ := bind_eq_ok.mp h
      cases same
      exact valid

end PairingInvite

end Qev.Pairing
