import Allotment.Report
import Allotment.Settings.Basic
import Allotment.SystemFault
import Allotment.Text.Utf8
import Allotment.Toml.Document

/-!
# Reading settings

Settings are written in TOML. `Settings.ofText` reads them and looks for defects, and
`Settings.ofFile` does so with the content of a file.
-/

namespace Allotment.Settings

/-- Why there are no settings. -/
inductive Fault where
  | noFile (f : SystemFault)
  | notText
  /-- The text is not TOML, or a value in it cannot be what its name says. -/
  | malformed
  | defect (d : Defect)

/-- What is told about a fault; nothing in particular about a malformed text. -/
def Fault.report? : Fault → Option Report
  | noFile f => some ⟨.configuration, "Failed to read config file: " ++ f.text⟩
  | notText =>
    some ⟨.configuration, "Failed to read config file: stream did not contain valid UTF-8"⟩
  | malformed => none
  | defect d => some ⟨.configuration, d.text⟩

def checked (s : Settings) : Except Fault Settings :=
  match s.defect? with
  | none => .ok s
  | some d => .error (.defect d)

def ofText (text : String) : Except Fault Settings :=
  match (Toml.read? text).bind ofValue? with
  | none => .error .malformed
  | some s => s.checked

/-- The settings in a file, given its content or the reason why there is none. -/
def ofFile (content : Except SystemFault (List UInt8)) : Except Fault Settings :=
  match content with
  | .error f => .error (.noFile f)
  | .ok bytes =>
    match Text.Utf8.decode bytes with
    | .error _ => .error .notText
    | .ok text => ofText text

/-- What is read has no defect. -/
theorem checked_eq_ok_iff {s t : Settings} : s.checked = .ok t ↔ s = t ∧ s.defect? = none := by
  unfold checked
  split <;> simp_all

end Allotment.Settings
