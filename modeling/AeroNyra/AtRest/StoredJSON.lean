import AeroNyra.Enrollment.Records
import AeroNyra.Nostr.EventJSON
import AeroNyra.Transport.EventLedger

/-! The denylist and the ledger of events as JSON, which determines them. -/

namespace AeroNyra

open PrefixCode

namespace JSONEncoder

/-- What the encoder writes for a character when nothing is asked of it. -/
def escapeSlash (c : Char) : Text := if c = '/' then ['\\', '/'] else escapeChar c

/-- A string with its slashes escaped. -/
def slashed (s : Text) : Text := '"' :: (s.flatMap escapeSlash ++ ['"'])

def boolean (b : Bool) : Text := if b then "true".toList else "false".toList

/-- The end of an object, with a last field if there is a value of it. -/
def lastField {α : Type} (key : Text) (element : α → Text) : Option α → Text
  | none => ['\x7d']
  | some a => ',' :: (key ++ (element a ++ ['\x7d']))

theorem unescape_escapeSlash (c : Char) (rest : Text) :
    unescape (escapeSlash c ++ rest) = some (c, rest) := by
  unfold escapeSlash
  split
  · subst c
    rfl
  · exact unescape_escapeChar c rest

theorem readable_slashed : Readable slashed := (readable_quoted unescape_escapeSlash).cons '"'

theorem readable_boolean : Readable boolean := by
  intro a b rest rest' h
  cases a <;> cases b <;> simp_all [boolean]

theorem readable_lastField {α : Type} (key : Text) {element : α → Text}
    (h : Readable fun a => element a ++ ['\x7d']) : Readable (lastField key element) := by
  intro a b rest rest' hsame
  cases a with
  | none =>
    cases b with
    | none => exact ⟨rfl, List.append_cancel_left hsame⟩
    | some b => exact absurd (List.cons.inj hsame).1 (by decide)
  | some a =>
    cases b with
    | none => exact absurd (List.cons.inj hsame).1 (by decide)
    | some b =>
      have htail : key ++ (element a ++ ['\x7d']) ++ rest =
        key ++ (element b ++ ['\x7d']) ++ rest' :=
        (List.cons.inj hsame).2
      rw [List.append_assoc key, List.append_assoc key] at htail
      obtain ⟨rfl, hrest⟩ := h _ _ _ _ (List.append_cancel_left htail)
      exact ⟨rfl, hrest⟩

end JSONEncoder

open JSONEncoder NostrEvent

/-- A contact as compact JSON; a name that is missing is left out. -/
def BlockedContact.json (b : BlockedContact) : Text :=
  "\x7b\"rawKey\":".toList ++ (slashed (Base64.encode b.rawKey) ++ (",\"blockedAt\":".toList ++
    (decimal b.blockedAt ++ ([','] ++ ("\"wasVerified\":".toList ++ (boolean b.wasVerified ++
    lastField "\"petname\":".toList (fun s : String => slashed s.toList) b.petname))))))

theorem BlockedContact.readable_json : Readable json := by
  have hstring := readable_slashed
  have htime := readable_decimal (t := ',') (by decide) (by decide)
  have hname : Readable fun s : String => slashed s.toList ++ ['\x7d'] := by
    intro s s' rest rest' h
    rw [List.append_assoc, List.append_assoc] at h
    obtain ⟨hsame, hrest⟩ := hstring _ _ _ _ h
    exact ⟨String.toList_injective hsame, (List.cons.inj hrest).2⟩
  intro a b rest rest' h
  unfold json at h
  simp only [List.append_assoc] at h
  obtain ⟨hkey, h⟩ := hstring _ _ _ _ (List.append_cancel_left h)
  have h := List.append_cancel_left h
  rw [← List.append_assoc, ← List.append_assoc (decimal b.blockedAt)] at h
  obtain ⟨hblocked, h⟩ := htime _ _ _ _ h
  obtain ⟨hverified, h⟩ := readable_boolean _ _ _ _ (List.append_cancel_left h)
  obtain ⟨hpetname, hrest⟩ := readable_lastField _ hname _ _ _ _ h
  have hraw := congrArg Base64.decode hkey
  rw [Base64.decode_encode, Base64.decode_encode] at hraw
  cases a
  cases b
  simp_all

/-- The denylist as JSON. -/
def BlockedContactsStore.json (denylist : List BlockedContact) : Text :=
    array BlockedContact.json denylist

theorem BlockedContactsStore.json_injective : Function.Injective json := by
  refine (readable_array BlockedContact.readable_json fun b rest rest' h => ?_).injective
  exact absurd (List.cons.inj h).1 (by decide)

/-- The ledger as JSON. -/
def ProcessedEventLedgerStore.json (stored : EventLedger.Stored String) : Text :=
  "\x7b\"order\":".toList ++ (array (fun s : String => slashed s.toList) stored.order ++
    lastField "\"capacity\":".toList decimal stored.capacity)

theorem ProcessedEventLedgerStore.json_injective : Function.Injective json := by
  have hstring : Readable fun s : String => slashed s.toList := by
    intro s s' rest rest' h
    obtain ⟨hsame, hrest⟩ := readable_slashed _ _ _ _ h
    exact ⟨String.toList_injective hsame, hrest⟩
  have horder := readable_array hstring fun s rest rest' h => absurd (List.cons.inj h).1 (by decide)
  have hcapacity := readable_lastField "\"capacity\":".toList
    (readable_decimal (t := '\x7d') (by decide) (by decide))
  intro a b h
  obtain ⟨hsame, h⟩ := horder _ _ _ _ (List.append_cancel_left h)
  have hlast := hcapacity.injective h
  cases a
  cases b
  simp_all

end AeroNyra
