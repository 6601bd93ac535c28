import HingeLoss.Page.Fault

/-! What can go wrong with settings and with their file. -/

namespace HingeLoss

inductive InvalidSetting where
  | penalty (value : Single)
  | tolerances
  | learningRate (value : Single)
  | exponent (value : Single)
  | tolerance
  | pageTerms
  | pageBytes
  | other (text : String)
deriving DecidableEq

def InvalidSetting.text : InvalidSetting → String
  | .penalty value => s!"admm.penalty must be positive, got {value.text}"
  | .tolerances => "admm tolerances must be finite and non-negative"
  | .learningRate value => s!"sgd.learning_rate must be positive, got {value.text}"
  | .exponent value => s!"sgd.schedule.exponent must be >= 0, got {value.text}"
  | .tolerance => "sgd.tolerance must be finite and non-negative"
  | .pageTerms => "streaming.page_terms must be at least 1"
  | .pageBytes => "streaming.page_bytes must be positive when set"
  | .other text => text

inductive SettingsFault where
  | read (path : String) (fault : SystemFault)
  | write (path : String) (fault : SystemFault)
  | parse (path text : String)
  | invalid (setting : InvalidSetting)
deriving DecidableEq

namespace SettingsFault

def code : SettingsFault → String
  | read _ _ => "hlmrf::config::read"
  | write _ _ => "hlmrf::config::write"
  | parse _ _ => "hlmrf::config::parse"
  | invalid _ => "hlmrf::config::invalid"

def message : SettingsFault → String
  | read path _ => "failed to read config " ++ path
  | write path _ => "failed to write config " ++ path
  | parse path text => "failed to parse config " ++ path ++ ": " ++ text
  | invalid setting => "invalid configuration: " ++ setting.text

def help : SettingsFault → String
  | read _ _ => "Check that the file exists and is readable."
  | write _ _ => "Check that the parent directory exists and you have write permissions."
  | parse _ _ => "The file must be valid TOML with [admm], [sgd] and [streaming] tables."
  | invalid setting => setting.text

def source : SettingsFault → Option String
  | read _ fault => some fault.text
  | write _ fault => some fault.text
  | _ => none

end SettingsFault

end HingeLoss
