import Leitir.LicenseAdmission

/-! Which sources the resolution of a licence does not survive. -/

namespace Leitir.License

open List ExceptRun

section

variable (loads : Text → Option (List (Text × Toml)))

end

abbrev Record := List (Text × Text)

def Record.license (record : Record) : Text := (lookup record "License").getD []

end Leitir.License
