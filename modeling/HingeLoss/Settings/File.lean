import HingeLoss.Disk.System
import HingeLoss.Settings.Data
import HingeLoss.Toml.Printer
import HingeLoss.Toml.Reader

/-! Settings files, which are read, understood and checked in this order. -/

namespace HingeLoss.Settings

/-- The text of a settings file. Whole numbers beyond sixty-three bits cannot be written. -/
def toText (settings : Settings) : Except SettingsFault String :=
  match Toml.render? settings.toData with
  | some text => .ok text
  | none => .error (.parse "<memory>" "a whole number is out of range")

/-- The settings of a text, with standard values for what it does not name. -/
def ofText? (text : String) : Option Settings := (Toml.parse? text).bind ofTable?

def notText : SystemFault := .other "stream did not contain valid UTF-8"

/-- The checked settings of the file at a path. -/
def load (disk : Folder) (path : Path) : Except SettingsFault Settings :=
  match disk.readAt path with
  | .error fault => .error (.read path.shown fault)
  | .ok bytes =>
      match String.fromUTF8? bytes.toByteArray with
      | none => .error (.read path.shown notText)
      | some text =>
          match ofText? text with
          | none => .error (.parse path.shown "no table of settings")
          | some settings => settings.validate.map fun _ => settings

/-- The settings become the file at a path. -/
def save (settings : Settings) (disk : Folder) (path : Path) :
    Except SettingsFault Unit × Folder :=
  match settings.toText with
  | .error fault => (.error fault, disk)
  | .ok text =>
      match disk.ensureFolder path.parent with
      | (.error fault, left) => (.error (.write path.parent.shown fault), left)
      | (.ok _, left) =>
          match left.writeAt path text.toUTF8.toList with
          | .error fault => (.error (.write path.shown fault), left)
          | .ok written => (.ok (), written)

end HingeLoss.Settings
