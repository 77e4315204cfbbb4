import Countdown.Proofs.Json.Limit
import Countdown.Settings.Basic
set_option autoImplicit false

/-!
Settings that are loaded from a file of any content. There are two faults for which a file is not replaced by
the defaults: bytes that are no UTF-8, and a whole number of too many digits.
-/

namespace Countdown.Settings

variable {content : FileContent} {s : Settings} {l : Loaded} {e : SettingsError}

/-- The file writes an object in UTF-8 from which the settings are read. -/
inductive Holds : FileContent → Settings → Prop where
  | object {b : ByteArray} {text : String} {fields : List (String × Json)} {s : Settings}
      (decoded : String.fromUTF8? b = some text) (written : Json.read text = .ok (.obj fields))
      (valid : ofJson (.obj fields) = .ok s) : Holds (.bytes b) s

/-- What loading a file is to give: its settings, or the defaults, with a warning unless there is no file. -/
inductive Gives : FileContent → Loaded → Prop where
  | missing : Gives .missing ⟨defaults,false⟩
  | held {content : FileContent} {s : Settings} (holds : Holds content s) : Gives content ⟨s,false⟩
  | unusable {content : FileContent} (present : content ≠ .missing) (unheld : ∀ s, ¬Holds content s) :
      Gives content ⟨defaults,true⟩

/-- The faults for which a file is not replaced by the defaults. -/
inductive Fault : FileContent → SettingsError → Prop where
  | undecodable {b : ByteArray} (h : String.fromUTF8? b = none) : Fault (.bytes b) .undecodable
  | integerTooLong {b : ByteArray} {text : String} {n : Nat} (decoded : String.fromUTF8? b = some text)
      (long : Json.read text = .error (.integerTooLong n)) : Fault (.bytes b) (.integerTooLong n)

theorem ofText_eq_ok_iff {text : String} : ofText text = .ok s ↔
    ∃ fields, Json.read text = .ok (.obj fields) ∧ ofJson (.obj fields) = .ok s := by
  constructor
  · intro h
    unfold ofText at h
    split at h
    · contradiction
    · contradiction
    · rename_i fields hread
      split at h
      · rename_i hvalid
        cases h
        exact ⟨fields,hread,hvalid⟩
      · contradiction
    · contradiction
  · rintro ⟨fields,hread,hvalid⟩
    simp only [ofText, hread, hvalid]

theorem ofFile_eq_ok_iff : ofFile content = .ok s ↔ Holds content s := by
  constructor
  · intro h
    unfold ofFile at h
    split at h
    · contradiction
    · contradiction
    · split at h
      · contradiction
      · rename_i text hdecoded
        obtain ⟨fields,hwritten,hvalid⟩ := ofText_eq_ok_iff.mp h
        exact .object hdecoded hwritten hvalid
  · rintro ⟨hdecoded,hwritten,hvalid⟩
    simp only [ofFile, hdecoded]
    exact ofText_eq_ok_iff.mpr ⟨_,hwritten,hvalid⟩

theorem Fault.present (h : Fault content e) : content ≠ .missing := by
  rintro rfl
  cases h

theorem Holds.present (h : Holds content s) : content ≠ .missing := by
  rintro rfl
  cases h

theorem Holds.unique {s' : Settings} (h : Holds content s) (h' : Holds content s') : s = s' :=
  Except.ok.inj ((ofFile_eq_ok_iff.mpr h).symm.trans (ofFile_eq_ok_iff.mpr h'))

theorem Gives.unique {l' : Loaded} (h : Gives content l) (h' : Gives content l') : l = l' := by
  cases h with
  | missing =>
    cases h' with
    | missing => rfl
    | held hs => exact absurd rfl hs.present
    | unusable hpresent => exact absurd rfl hpresent
  | held hs =>
    cases h' with
    | missing => exact absurd rfl hs.present
    | held hs' => rw [hs.unique hs']
    | unusable _ hnone => exact absurd hs (hnone _)
  | unusable hpresent hnone =>
    cases h' with
    | missing => exact absurd rfl hpresent
    | held hs => exact absurd hs (hnone _)
    | unusable => rfl

end Countdown.Settings
