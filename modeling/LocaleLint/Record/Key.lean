import LocaleLint.Record.Issue
import LocaleLint.Yaml.Value.Basic

set_option autoImplicit false

namespace LocaleLint.Key

open LocaleLint.Calendar LocaleLint.Yaml

def call (name : String) (parts : List String) : String :=
  name ++ "(" ++ ", ".intercalate parts ++ ")"

def date (d : Date) : String :=
  call "datetime.date" [toString d.year, toString d.month, toString d.day]

def offset (minutes : Int) : String :=
  if minutes = 0 then "datetime.timezone.utc"
  else
    let days := minutes.fdiv minutesPerDay
    let seconds := minutes.fmod minutesPerDay * 60
    call "datetime.timezone"
      [call "datetime.timedelta"
        ((if days = 0 then [] else ["days=" ++ toString days]) ++
          (if seconds = 0 then [] else ["seconds=" ++ toString seconds]))]

def dateTime (t : DateTime) : String :=
  let fine :=
    if t.microsecond ≠ 0 then [toString t.second, toString t.microsecond]
    else if t.second ≠ 0 then [toString t.second]
    else []
  let zone := match t.offset with
    | some minutes => ["tzinfo=" ++ offset minutes]
    | none => []
  call "datetime.datetime"
    ([toString t.date.year, toString t.date.month, toString t.date.day, toString t.hour,
      toString t.minute] ++ fine ++ zone)

def name : Scalar → String
  | .bool b => if b then "1" else "0"
  | .date d => date d
  | .dateTime t => dateTime t
  | key => key.text

-- The issues of keys that a record with the given fields does not have, in the order of the keys.
def unknown (fields : List String) (entries : List (Scalar × Value)) : List Issue :=
  entries.filterMap fun (key, _) =>
    match key with
    | .string field => if fields.contains field then none else some ⟨[field], .unknownField⟩
    | key => some ⟨[name key], .keyNotText⟩

end LocaleLint.Key
