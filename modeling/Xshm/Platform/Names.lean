import Mathlib.Tactic.IntervalCases
import Xshm.Ring.Layout
import Xshm.Text.Utf16

/-!
# The names of the shared objects

A server with a name creates a section and seven events, whose names `naming.rs` and `events.rs`
make from the name of the server; `ntapi/helpers.rs` turns each into a path of the object directory
of the session and into a counted UTF-16 string.  A server with slots has a name for each slot, and
a dispatch server one for each channel.  The object manager compares names without regard to case
and follows the links in its directories, such as `Global` in that of a session; a path that stays
in the directory of its session leads through none of them.

* `sameObject_iff` : which objects of two servers are the same one, when their names lead through
  no link.
* `slotObject_eq_iff`, `channelObject_eq_iff` : objects of different slots, and of channels with
  different names, are never the same one.
* `NtName.new_exact` : a name is passed on whole or rejected.
-/

namespace Xshm

namespace Platform

open Utf16 (units)

/-- `naming::Direction`. -/
inductive Direction where
  | serverToClient
  | clientToServer
  deriving DecidableEq

/-- `Direction::as_str`. -/
def Direction.asStr : Direction → String
  | .serverToClient => "S2C"
  | .clientToServer => "C2S"

/-- `event_prefix(base)`. -/
def eventPrefix (base : String) : String := "Local\\" ++ base ++ "_"

/-- `mapping_name(base)`. -/
def mappingName (base : String) : String := "Local\\" ++ base

/-- `event_name(base, direction, suffix)`. -/
def eventName (base : String) (direction : Direction) (suffix : String) : String :=
  eventPrefix base ++ direction.asStr ++ "_" ++ suffix

/-- The section of a server and the fields of `SharedEvents`. -/
inductive Object where
  | mapping
  | s2cData
  | s2cSpace
  | c2sData
  | c2sSpace
  | connectAck
  | connectReq
  | disconnect
  deriving DecidableEq

/-- The name with which `SharedServer::start` and `SharedEvents::create` create an object, and
`SharedClient::connect` and `SharedEvents::open` open it. -/
def Object.name (base : String) : Object → String
  | .mapping => mappingName base
  | .s2cData => eventName base .serverToClient "DATA"
  | .s2cSpace => eventName base .serverToClient "SPACE"
  | .c2sData => eventName base .clientToServer "DATA"
  | .c2sSpace => eventName base .clientToServer "SPACE"
  | .connectAck => eventName base .serverToClient "CONNECT"
  | .connectReq => eventName base .clientToServer "CONNECT_REQ"
  | .disconnect => eventName base .serverToClient "DISCONNECT"

/-- `str::strip_prefix`. -/
def stripPrefix (name start : String) : Option String :=
  if start.toList.isPrefixOf name.toList then
    some (String.ofList (name.toList.drop start.toList.length))
  else none

/-- `session_local_path(name)` in the session `sid`. -/
def sessionLocalPath (sid : UInt32) (name : String) : String :=
  if sid = 0 then "\\BaseNamedObjects\\" ++ name
  else "\\Sessions\\" ++ sid.toNat.repr ++ "\\BaseNamedObjects\\" ++ name

/-- `to_nt_path(name)` in the session `sid`. -/
def toNtPath (sid : UInt32) (name : String) : String :=
  match stripPrefix name "Global\\" with
  | some stripped => "\\BaseNamedObjects\\" ++ stripped
  | none =>
    match stripPrefix name "Local\\" with
    | some stripped => sessionLocalPath sid stripped
    | none =>
      if name.toList.head? = some '\\' then name
      else sessionLocalPath sid name

/-- `to_wide(value)`. -/
def toWide (value : String) : List UInt16 := units value ++ [0]

/-- `MAX_NT_NAME_UNITS`. -/
def maxNtNameUnits : ℕ := (65535 - 2) / 2

/-- `NtName`: the buffer and the lengths of the `UNICODE_STRING`, in bytes. -/
structure NtName where
  wide : List UInt16
  length : UInt16
  maximumLength : UInt16

/-- `NtName::new(name)` in the session `sid`. -/
def NtName.new (sid : UInt32) (name : String) : Except ShmError NtName :=
  let wide := toWide (toNtPath sid name)
  let n := wide.length - 1
  if maxNtNameUnits < n then
    .error (.invalidConfig "object name too long for UNICODE_STRING (max ~32766 UTF-16 units)")
  else .ok ⟨wide, UInt16.ofNat (n * 2), UInt16.ofNat (n * 2) + 2⟩

/-- The code units that the object manager reads. -/
def NtName.text (n : NtName) : List UInt16 := n.wide.take (n.length.toNat / 2)

/-- The name of a slot of a `MultiServer`. -/
def slotName (baseName : String) (slotId : UInt32) : String :=
  baseName ++ "_" ++ slotId.toNat.repr

/-- `{:016x}`, the name that `generate_channel_name` makes of a hash. -/
def hexName (hash : UInt64) : String :=
  String.ofList ((List.range 16).map fun k => Nat.digitChar (hash.toNat / 16 ^ (15 - k) % 16))

/-! ### A name is passed on whole -/

theorem length_toWide (s : String) : (toWide s).length = (units s).length + 1 := by
  rw [toWide, List.length_append, List.length_singleton]

/-- **A name is passed on whole or rejected**: the object manager reads the path of the name, with
its terminator behind it, or the path has too many code units. -/
theorem NtName.new_exact (sid : UInt32) (name : String) :
    (∀ n, NtName.new sid name = .ok n → n.text = units (toNtPath sid name) ∧
      n.wide = n.text ++ [0] ∧ n.length.toNat = 2 * n.text.length ∧
      n.maximumLength.toNat = 2 * n.wide.length) ∧
    ((∃ e, NtName.new sid name = .error e) ↔ 32766 < (units (toNtPath sid name)).length) := by
  have hmax : maxNtNameUnits = 32766 := by decide
  unfold NtName.new
  simp only [length_toWide, Nat.add_sub_cancel, hmax]
  constructor
  · intro n hn
    split_ifs at hn with hlong
    cases hn
    have hlen : (UInt16.ofNat ((units (toNtPath sid name)).length * 2)).toNat =
        (units (toNtPath sid name)).length * 2 := Utf16.toNat_ofNat16 (by omega)
    have htext : (toWide (toNtPath sid name)).take (units (toNtPath sid name)).length =
        units (toNtPath sid name) := by
      rw [toWide, List.take_left]
    simp only [text, hlen, Nat.mul_div_cancel _ Nat.two_pos, htext]
    refine ⟨trivial, rfl, Nat.mul_comm _ _, ?_⟩
    rw [length_toWide, UInt16.toNat_add, hlen]
    have htwo : (2 : UInt16).toNat = 2 := rfl
    omega
  · split_ifs with hlong
    · exact iff_of_true ⟨_, rfl⟩ hlong
    · refine ⟨?_, fun h => absurd h hlong⟩
      rintro ⟨e, ⟨⟩⟩

/-! ### The comparison of the object manager -/

/-- What is known of the upper case of a code unit: of the units below `a` none has another, and the
letters from `a` to `z` have. -/
structure Upcase (up : UInt16 → UInt16) : Prop where
  other : ∀ c, c < 0x61 → up c = c
  letter : ∀ c, 0x61 ≤ c → c ≤ 0x7a → up c = c - 0x20

/-- The code units of a name in upper case. -/
def upper (up : UInt16 → UInt16) (s : String) : List UInt16 := (units s).map up

/-- Two names are the same but for case: so the object manager compares the entries of a directory.
-/
def SameName (up : UInt16 → UInt16) (s t : String) : Prop := upper up s = upper up t

/-- What the name of an object adds to the name of its server. -/
def Object.suffix : Object → String
  | .mapping => ""
  | .s2cData => "_S2C_DATA"
  | .s2cSpace => "_S2C_SPACE"
  | .c2sData => "_C2S_DATA"
  | .c2sSpace => "_C2S_SPACE"
  | .connectAck => "_S2C_CONNECT"
  | .connectReq => "_C2S_CONNECT_REQ"
  | .disconnect => "_S2C_DISCONNECT"

theorem Object.name_eq (base : String) (k : Object) :
    k.name base = "Local\\" ++ (base ++ k.suffix) := by
  cases k <;>
    simp only [name, mappingName, eventName, eventPrefix, Direction.asStr, suffix,
      String.append_assoc, String.append_empty] <;> rfl

theorem stripPrefix_append (start name : String) :
    stripPrefix (start ++ name) start = some name := by
  have hstart : start.toList.isPrefixOf (start ++ name).toList = true := by
    rw [String.toList_append, List.isPrefixOf_iff_prefix]
    exact List.prefix_append _ _
  rw [stripPrefix, if_pos hstart, String.toList_append, List.drop_left, String.ofList_toList]

/-- A name of this library is local to the session, whatever the name of the server is. -/
theorem toNtPath_local (sid : UInt32) (name : String) :
    toNtPath sid ("Local\\" ++ name) = sessionLocalPath sid name := by
  have hglobal : stripPrefix ("Local\\" ++ name) "Global\\" = none := by
    rw [stripPrefix, if_neg]
    rw [String.toList_append]
    simp
  rw [toNtPath, hglobal, stripPrefix_append]

/-- The directory of the named objects of a session. -/
def sessionRoot (sid : UInt32) : String :=
  if sid = 0 then "\\BaseNamedObjects\\"
  else "\\Sessions\\" ++ sid.toNat.repr ++ "\\BaseNamedObjects\\"

theorem sessionLocalPath_eq (sid : UInt32) (name : String) :
    sessionLocalPath sid name = sessionRoot sid ++ name := by
  unfold sessionLocalPath sessionRoot
  split_ifs <;> rfl

section

variable {up : UInt16 → UInt16}

theorem upper_append (s t : String) : upper up (s ++ t) = upper up s ++ upper up t := by
  rw [upper, Utf16.units_append, List.map_append]
  rfl

/-- Names without lower case letters are in upper case. -/
theorem upper_eq (hup : Upcase up) {s : String} (h : (units s).all (· < 0x61)) :
    upper up s = units s := by
  refine (List.map_congr_left fun c hc => hup.other c ?_).trans (List.map_id _)
  exact of_decide_eq_true (List.all_eq_true.1 h c hc)

/-! ### Numbers in names -/

theorem mem_units_repr {n : ℕ} {c : UInt16} (h : c ∈ units n.repr) : 0x30 ≤ c ∧ c ≤ 0x39 := by
  rw [Nat.repr_eq_ofList_toDigits, Utf16.units_ofList_of_lt] at h
  · obtain ⟨d, hd, rfl⟩ := List.mem_map.1 h
    have hdigit := Nat.isDigit_of_mem_toDigits (by decide) (by decide) hd
    rw [Char.isDigit, Bool.and_eq_true, decide_eq_true_eq, decide_eq_true_eq] at hdigit
    have h₁ : 48 ≤ d.toNat := UInt32.le_iff_toNat_le.1 hdigit.1
    have h₂ : d.toNat ≤ 57 := UInt32.le_iff_toNat_le.1 hdigit.2
    rw [UInt16.le_iff_toNat_le, UInt16.le_iff_toNat_le, Utf16.toNat_ofNat16 (by omega)]
    exact ⟨h₁, h₂⟩
  · intro d hd
    have hdigit := Nat.isDigit_of_mem_toDigits (by decide) (by decide) hd
    rw [Char.isDigit, Bool.and_eq_true, decide_eq_true_eq, decide_eq_true_eq] at hdigit
    have h₂ : d.toNat ≤ 57 := UInt32.le_iff_toNat_le.1 hdigit.2
    omega

theorem upper_repr (hup : Upcase up) (n : ℕ) : upper up n.repr = units n.repr := by
  refine upper_eq hup (List.all_eq_true.2 fun c hc => decide_eq_true ?_)
  have := (mem_units_repr hc).2
  rw [UInt16.le_iff_toNat_le] at this
  exact UInt16.lt_iff_toNat_lt.2 (lt_of_le_of_lt this (by decide))

theorem units_repr_inj {m n : ℕ} (h : units m.repr = units n.repr) : m = n := by
  have hrepr := congrArg String.toList (Utf16.units_injective h)
  rw [Nat.toList_repr, Nat.toList_repr] at hrepr
  rw [← Nat.ofDigitChars_ten_toDigits (n := m), hrepr, Nat.ofDigitChars_ten_toDigits]

/-! ### Paths -/

/-- Lists that agree up to the first separator and behind it. -/
theorem append_cons_inj {α : Type*} {x : α} {l l' r r' : List α} (hl : x ∉ l) (hl' : x ∉ l')
    (h : l ++ x :: r = l' ++ x :: r') : l = l' ∧ r = r' := by
  rcases List.append_eq_append_iff.1 h with ⟨c, rfl, hr⟩ | ⟨c, rfl, hr⟩
  · cases c with
    | nil => exact ⟨(List.append_nil l).symm, (List.cons.inj hr).2⟩
    | cons y c =>
      obtain ⟨rfl, -⟩ := List.cons.inj hr
      exact absurd (List.mem_append_right l List.mem_cons_self) hl'
  · cases c with
    | nil => exact ⟨List.append_nil l', (List.cons.inj hr).2.symm⟩
    | cons y c =>
      obtain ⟨rfl, -⟩ := List.cons.inj hr
      exact absurd (List.mem_append_right l' List.mem_cons_self) hl

/-- A path says which session it belongs to. -/
theorem sessionRoot_append_inj (hup : Upcase up) {sid sid' : UInt32} {l l' : List UInt16}
    (h : upper up (sessionRoot sid) ++ l = upper up (sessionRoot sid') ++ l') :
    sid = sid' ∧ l = l' := by
  have hbase : upper up "\\BaseNamedObjects\\" = 0x5c :: 0x42 :: upper up "aseNamedObjects\\" := by
    rw [show "\\BaseNamedObjects\\" = "\\B" ++ "aseNamedObjects\\" by decide, upper_append,
      upper_eq hup (by decide)]
    rfl
  have hsessions : upper up "\\Sessions\\" = 0x5c :: 0x53 :: upper up "essions\\" := by
    rw [show "\\Sessions\\" = "\\S" ++ "essions\\" by decide, upper_append,
      upper_eq hup (by decide)]
    rfl
  have hnot (n : ℕ) : (0x5c : UInt16) ∉ units n.repr := fun hc =>
    absurd (mem_units_repr hc).2 (by decide)
  unfold sessionRoot at h
  by_cases h₀ : sid = 0
  · by_cases h₀' : sid' = 0
    · rw [if_pos h₀, if_pos h₀'] at h
      exact ⟨h₀.trans h₀'.symm, List.append_cancel_left h⟩
    · rw [if_pos h₀, if_neg h₀', upper_append, upper_append, hbase, hsessions] at h
      simp only [List.cons_append, List.cons.injEq] at h
      exact absurd h.2.1 (by decide)
  · by_cases h₀' : sid' = 0
    · rw [if_neg h₀, if_pos h₀', upper_append, upper_append, hbase, hsessions] at h
      simp only [List.cons_append, List.cons.injEq] at h
      exact absurd h.2.1 (by decide)
    · rw [if_neg h₀, if_neg h₀', upper_append, upper_append, upper_append, upper_append,
        upper_repr hup, upper_repr hup, hbase] at h
      simp only [List.append_assoc] at h
      -- the number of the session ends where the next separator stands
      have hnum := List.append_cancel_left h
      simp only [List.cons_append] at hnum
      obtain ⟨hsid, hrest⟩ := append_cons_inj (hnot _) (hnot _) hnum
      refine ⟨UInt32.toNat_inj.1 (units_repr_inj hsid), ?_⟩
      exact List.append_cancel_left (List.cons.inj hrest).2

/-- The suffixes of events are upper case. -/
theorem upper_suffix (hup : Upcase up) (k : Object) : upper up k.suffix = units k.suffix := by
  refine upper_eq hup ?_
  cases k <;> decide

/-- No suffix of an event ends with another one. -/
theorem suffix_of_suffix {k k' : Object} (h : k ≠ .mapping) (h' : k' ≠ .mapping)
    (hs : units k.suffix <:+ units k'.suffix) : k = k' := by
  cases k <;> cases k' <;>
    first | rfl | exact absurd rfl h | exact absurd rfl h' | exact absurd hs (by decide)

/-- Which names of objects are the same one. -/
theorem append_suffix_eq_iff (hup : Upcase up) (b b' : String) (k k' : Object) :
    SameName up (b ++ k.suffix) (b' ++ k'.suffix) ↔
      (k = k' ∧ SameName up b b') ∨
      (k = .mapping ∧ k' ≠ .mapping ∧ SameName up b (b' ++ k'.suffix)) ∨
      (k' = .mapping ∧ k ≠ .mapping ∧ SameName up (b ++ k.suffix) b') := by
  have hempty (c : String) : c ++ Object.mapping.suffix = c := String.append_empty
  by_cases hk : k = .mapping
  · subst hk
    by_cases hk' : k' = .mapping
    · subst hk'
      simp only [hempty, true_and, ne_eq, not_true_eq_false, false_and, or_false]
    · simp only [hempty, Ne.symm hk', false_and, true_and, ne_eq, hk', not_false_eq_true,
        not_true_eq_false, or_false, false_or]
  · by_cases hk' : k' = .mapping
    · subst hk'
      simp only [hempty, hk, false_and, true_and, ne_eq, not_false_eq_true, not_true_eq_false,
        false_or]
    · simp only [hk, hk', false_and, or_false]
      constructor
      · intro h
        rw [SameName, upper_append, upper_append, upper_suffix hup, upper_suffix hup] at h
        have hend : units k.suffix <:+ upper up b' ++ units k'.suffix := h ▸ List.suffix_append _ _
        have hsame : k = k' := by
          rcases Nat.le_total (units k.suffix).length (units k'.suffix).length with hle | hle
          · exact suffix_of_suffix hk hk'
              (List.suffix_of_suffix_length_le hend (List.suffix_append _ _) hle)
          · exact (suffix_of_suffix hk' hk
              (List.suffix_of_suffix_length_le (List.suffix_append _ _) hend hle)).symm
        subst hsame
        exact ⟨rfl, List.append_cancel_right h⟩
      · rintro ⟨rfl, h⟩
        rw [SameName, upper_append, upper_append, (h : upper up b = upper up b')]

end

/-- The path of an object of the server `base` in the session `sid`. -/
def Object.path (sid : UInt32) (base : String) (k : Object) : String := toNtPath sid (k.name base)

theorem Object.path_eq (sid : UInt32) (base : String) (k : Object) :
    k.path sid base = sessionRoot sid ++ (base ++ k.suffix) := by
  rw [path, name_eq, toNtPath_local, sessionLocalPath_eq]

/-- Which paths of the objects of two servers are the same one. -/
theorem path_eq_iff {up : UInt16 → UInt16} (hup : Upcase up) (sid sid' : UInt32)
    (base base' : String) (k k' : Object) :
    SameName up (k.path sid base) (k'.path sid' base') ↔ sid = sid' ∧
      ((k = k' ∧ SameName up base base') ∨
        (k = .mapping ∧ k' ≠ .mapping ∧ SameName up base (base' ++ k'.suffix)) ∨
        (k' = .mapping ∧ k ≠ .mapping ∧ SameName up (base ++ k.suffix) base')) := by
  rw [Object.path_eq, Object.path_eq, ← append_suffix_eq_iff hup]
  constructor
  · intro h
    rw [SameName, upper_append (sessionRoot sid), upper_append (sessionRoot sid')] at h
    exact sessionRoot_append_inj hup h
  · rintro ⟨rfl, h⟩
    rw [SameName, upper_append (sessionRoot sid), upper_append (sessionRoot sid),
      (h : upper up _ = upper up _)]

/-- The letters of ASCII. -/
def asciiUpcase (c : UInt16) : UInt16 := if 0x61 ≤ c ∧ c ≤ 0x7a then c - 0x20 else c

theorem upcase_ascii : Upcase asciiUpcase where
  other _ hc := if_neg fun h => absurd h.1 (UInt16.not_le.2 hc)
  letter _ h₁ h₂ := if_pos ⟨h₁, h₂⟩

/-! ### The lookup of the object manager -/

/-- A name that leads through no link from the directory of a session: it has no separator, and no
link has this name. -/
structure Plain (link : String → Prop) (name : String) : Prop where
  noSeparator : '\\' ∉ name.toList
  noLink : ¬ link name

/-- What is known of the lookup of paths, where `link` are the names of the links in the directory
of a session: names that lead through none of them are compared without regard to case. -/
structure Lookup {ω : Type*} (up : UInt16 → UInt16) (link : String → Prop) (find : String → ω) :
    Prop where
  plain : ∀ sid sid' name name', Plain link name → Plain link name' →
    (find (sessionRoot sid ++ name) = find (sessionRoot sid' ++ name') ↔
      SameName up (sessionRoot sid ++ name) (sessionRoot sid' ++ name'))

/-- **Which objects of two servers are the same one**, if their names lead through no link: the same
object of servers of one session whose names do not differ but for case, or the section of a server
that is called like an event of the other one. -/
theorem sameObject_iff {ω : Type*} {up : UInt16 → UInt16} {link : String → Prop}
    {find : String → ω} (hup : Upcase up) (hfind : Lookup up link find) (sid sid' : UInt32)
    {base base' : String} {k k' : Object} (h : Plain link (base ++ k.suffix))
    (h' : Plain link (base' ++ k'.suffix)) :
    find (k.path sid base) = find (k'.path sid' base') ↔ sid = sid' ∧
      ((k = k' ∧ SameName up base base') ∨
        (k = .mapping ∧ k' ≠ .mapping ∧ SameName up base (base' ++ k'.suffix)) ∨
        (k' = .mapping ∧ k ≠ .mapping ∧ SameName up (base ++ k.suffix) base')) := by
  rw [← path_eq_iff hup, Object.path_eq, Object.path_eq]
  exact hfind.plain sid sid' _ _ h h'

/-- An event of the server `a` is in the way of the section of another server. -/
theorem sameObject_iff_ascii :
    upper asciiUpcase (Object.path 1 "a" .s2cData) =
      upper asciiUpcase (Object.path 1 "A_S2C_DATA" .mapping) :=
  have hfind : Lookup asciiUpcase (· ∈ ["Global", "Local", "Session"]) (upper asciiUpcase) :=
    ⟨fun _ _ _ _ _ _ => Iff.rfl⟩
  (sameObject_iff upcase_ascii hfind 1 1 ⟨by decide, by decide⟩ ⟨by decide, by decide⟩).2
    ⟨rfl, .inr (.inr ⟨rfl, by decide, by unfold SameName; decide⟩)⟩

/-! ### Slots and channels -/

section

variable {up : UInt16 → UInt16}

theorem underscore_mem_suffix {k : Object} (hk : k ≠ .mapping) :
    (0x5f : UInt16) ∈ units k.suffix := by
  cases k <;> first | exact absurd rfl hk | decide

/-- Servers whose names, without `_` from some place on, differ there have no object in common. -/
theorem path_eq_iff_of_append (hup : Upcase up) (sid : UInt32) (base : String) {tail tail' : String}
    (h : (0x5f : UInt16) ∉ upper up tail) (h' : (0x5f : UInt16) ∉ upper up tail') (k k' : Object) :
    SameName up (k.path sid (base ++ tail)) (k'.path sid (base ++ tail')) ↔
      SameName up tail tail' ∧ k = k' := by
  have hnot {s t : String} {k : Object} (hs : (0x5f : UInt16) ∉ upper up s) (hk : k ≠ .mapping)
      (hsame : upper up (base ++ s) = upper up (base ++ t ++ k.suffix)) : False := by
    rw [upper_append base, upper_append (base ++ t), upper_append base, List.append_assoc] at hsame
    rw [List.append_cancel_left hsame, upper_suffix hup] at hs
    exact hs (List.mem_append_right _ (underscore_mem_suffix hk))
  rw [path_eq_iff hup]
  constructor
  · rintro ⟨-, ⟨rfl, hsame⟩ | ⟨-, hk, hsame⟩ | ⟨-, hk, hsame⟩⟩
    · rw [SameName, upper_append base, upper_append base] at hsame
      exact ⟨List.append_cancel_left hsame, rfl⟩
    · exact (hnot h hk hsame).elim
    · exact (hnot h' hk hsame.symm).elim
  · rintro ⟨hsame, rfl⟩
    refine ⟨rfl, .inl ⟨rfl, ?_⟩⟩
    rw [SameName, upper_append base, upper_append base, (hsame : upper up tail = upper up tail')]

theorem underscore_notMem_repr (hup : Upcase up) (n : ℕ) : (0x5f : UInt16) ∉ upper up n.repr := by
  rw [upper_repr hup]
  exact fun hc => absurd (mem_units_repr hc).2 (by decide)

/-- **Slots have no object in common**, and neither have the objects of one slot. -/
theorem slotObject_eq_iff (hup : Upcase up) (sid : UInt32) (baseName : String) (i j : UInt32)
    (k k' : Object) :
    SameName up (k.path sid (slotName baseName i)) (k'.path sid (slotName baseName j)) ↔
      i = j ∧ k = k' := by
  rw [slotName, slotName, path_eq_iff_of_append hup sid _ (underscore_notMem_repr hup _)
    (underscore_notMem_repr hup _)]
  refine and_congr_left fun _ => ⟨fun h => ?_, fun h => h ▸ rfl⟩
  rw [SameName, upper_repr hup, upper_repr hup] at h
  exact UInt32.toNat_inj.1 (units_repr_inj h)

theorem slotObject_eq_iff_ascii :
    ¬ SameName asciiUpcase (Object.path 1 (slotName "a" 1) .c2sData)
      (Object.path 1 (slotName "a" 11) .c2sData) :=
  fun h => absurd ((slotObject_eq_iff upcase_ascii 1 "a" 1 11 .c2sData .c2sData).1 h).1 (by decide)

/-- The digits of a hash in upper case. -/
def hexUnit (d : ℕ) : UInt16 := UInt16.ofNat (if d < 10 then 0x30 + d else 0x37 + d)

theorem hexUnit_inj {d e : ℕ} (hd : d < 16) (he : e < 16) (h : hexUnit d = hexUnit e) : d = e := by
  have := congrArg UInt16.toNat h
  unfold hexUnit at this
  rw [Utf16.toNat_ofNat16 (by split_ifs <;> omega), Utf16.toNat_ofNat16 (by split_ifs <;> omega)]
    at this
  split_ifs at this <;> omega

theorem upper_digitChar (hup : Upcase up) : ∀ d < 16,
    up (UInt16.ofNat (Nat.digitChar d).toNat) = hexUnit d ∧ (Nat.digitChar d).toNat < 0xd800 ∧
      hexUnit d ≠ 0x5f := by
  intro d hd
  interval_cases d
  all_goals
    refine ⟨?_, by decide, by decide⟩
    first
    | exact hup.other _ (by decide)
    | exact (hup.letter _ (by decide) (by decide)).trans (by decide)

theorem upper_hexName (hup : Upcase up) (hash : UInt64) : upper up (hexName hash) =
    (List.range 16).map fun k => hexUnit (hash.toNat / 16 ^ (15 - k) % 16) := by
  have hdigit (k : ℕ) : hash.toNat / 16 ^ (15 - k) % 16 < 16 := Nat.mod_lt _ (by decide)
  rw [upper, hexName, Utf16.units_ofList_of_lt, List.map_map, List.map_map]
  · refine List.map_congr_left fun k _ => ?_
    exact (upper_digitChar hup _ (hdigit k)).1
  · intro c hc
    obtain ⟨k, -, rfl⟩ := List.mem_map.1 hc
    exact (upper_digitChar hup _ (hdigit k)).2.1

/-- A number is made of its digits. -/
theorem mod_pow_eq_of_digits {m n : ℕ} (t : ℕ)
    (h : ∀ k < t, m / 16 ^ k % 16 = n / 16 ^ k % 16) : m % 16 ^ t = n % 16 ^ t := by
  induction t with
  | zero => rw [pow_zero, Nat.mod_one, Nat.mod_one]
  | succ t ih =>
    rw [Nat.mod_pow_succ, Nat.mod_pow_succ, ih fun k hk => h k (Nat.lt_succ_of_lt hk),
      h t (Nat.lt_succ_self t)]

theorem upper_hexName_inj (hup : Upcase up) {hash hash' : UInt64}
    (h : upper up (hexName hash) = upper up (hexName hash')) : hash = hash' := by
  rw [upper_hexName hup, upper_hexName hup] at h
  have hdigits : ∀ k < 16, hash.toNat / 16 ^ k % 16 = hash'.toNat / 16 ^ k % 16 := by
    intro k hk
    have := List.map_inj_left.1 h (15 - k) (List.mem_range.2 (by omega))
    rw [show 15 - (15 - k) = k by omega] at this
    exact hexUnit_inj (Nat.mod_lt _ (by decide)) (Nat.mod_lt _ (by decide)) this
  have hmod := mod_pow_eq_of_digits 16 hdigits
  have h₁ : hash.toNat < 16 ^ 16 := hash.toNat_lt
  have h₂ : hash'.toNat < 16 ^ 16 := hash'.toNat_lt
  rw [Nat.mod_eq_of_lt h₁, Nat.mod_eq_of_lt h₂] at hmod
  exact UInt64.toNat_inj.1 hmod

/-- **Channels have no object in common** if their hashes differ, although their names are compared
without regard to case. -/
theorem channelObject_eq_iff (hup : Upcase up) (sid : UInt32) (hash hash' : UInt64)
    (k k' : Object) :
    SameName up (k.path sid (hexName hash)) (k'.path sid (hexName hash')) ↔
      hash = hash' ∧ k = k' := by
  have hnot (hash : UInt64) : (0x5f : UInt16) ∉ upper up (hexName hash) := by
    rw [upper_hexName hup]
    intro hc
    obtain ⟨k, -, hk⟩ := List.mem_map.1 hc
    exact (upper_digitChar hup _ (Nat.mod_lt _ (by decide))).2.2 hk
  have := path_eq_iff_of_append hup sid "" (hnot hash) (hnot hash') k k'
  rw [String.empty_append, String.empty_append] at this
  rw [this]
  exact and_congr_left fun _ => ⟨upper_hexName_inj hup, fun h => h ▸ rfl⟩

theorem channelObject_eq_iff_ascii :
    ¬ SameName asciiUpcase (Object.path 1 (hexName 0xa) .mapping)
      (Object.path 1 (hexName 0xb) .mapping) :=
  fun h =>
    absurd ((channelObject_eq_iff upcase_ascii 1 0xa 0xb .mapping .mapping).1 h).1 (by decide)

end

end Platform

end Xshm
