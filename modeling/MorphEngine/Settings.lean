import MorphEngine.Metadata.Schema
import MorphEngine.Value.Attribute
import MorphEngine.Value.Order

/-!
Settings of the engine: whether pipelines are fused, how many entries a cache holds, and how long
entries stay fresh by default. They can be read from named texts of an environment. A cache takes
three things from them, and anything that shows these as attributes can stand in for settings.
-/

namespace MorphEngine

/-- The clock that a cache goes by: one that the program moves, one that stands still, or a value
that is called for the time. -/
inductive Clock where
  | moving
  | still
  | asked (fn : Value)

structure EngineSettings where
  fusionEnabled : Value
  cacheMaxsize : Value
  defaultCacheTtl : Value
  clock : Clock

namespace EngineSettings

def checkMaxsize (v : Value) : Except Fault Unit :=
  if v.int?.any (0 < ·) then .ok () else v.refuse "cache_maxsize must be a positive int, got " ""

/-- Fails when a time to live that is not missing is zero or less. Anything will do that can be
compared with zero. -/
def checkTtl (v : Value) : Except Fault Unit :=
  match v with
  | .none => .ok ()
  | v => do
    if ← Value.relates [] .atMost v (.int 0) then
      v.refuse "default_cache_ttl must be positive, got " ""

def ofParts (fusionEnabled cacheMaxsize defaultCacheTtl : Value) (clock : Clock) :
    Except Fault EngineSettings := do
  checkMaxsize cacheMaxsize
  checkTtl defaultCacheTtl
  return ⟨fusionEnabled, cacheMaxsize, defaultCacheTtl, clock⟩

def default : EngineSettings := ⟨.bool true, .int 1024, .none, .still⟩

/-- Settings from values by name, with defaults for those that are missing. -/
def ofFields (fs : Fields) (clock : Clock) : Except Fault EngineSettings := do
  Fields.refuseUnknown "EngineSettings"
    ["fusion_enabled", "cache_maxsize", "default_cache_ttl", "timer"] fs
  let value (name : Text) (missing : Value) : Value := (fs.get? name).getD missing
  ofParts (value "fusion_enabled" (.bool true)) (value "cache_maxsize" (.int 1024))
    (value "default_cache_ttl" .none) clock

/-- Whether pipelines are fused, as the contents are now. -/
def isFusing (cells : Cells) (s : EngineSettings) : Except Fault Bool :=
  (s.fusionEnabled.resolve cells).truth

def affirmative : List Text := ["1", "true", "yes", "on"]

def negative : List Text := ["0", "false", "no", "off"]

def invalid {α : Type} (name text : Text) : Except Fault α :=
  .error (.configuration ("Invalid " ++ name ++ " value: " ++ text.quoted))

def readSwitch (t : Text) : Except Fault Value :=
  let word := t.strip.lowerAscii
  if affirmative.contains word then .ok (.bool true)
  else if negative.contains word then .ok (.bool false)
  else invalid "MORPHEUS_FUSION" t

/-- Settings from the texts of an environment; a later text replaces an earlier one of the same
name. -/
def ofEnvironment (environment : List (Text × Text)) (clock : Clock) :
    Except Fault EngineSettings := do
  let fusion ← read "MORPHEUS_FUSION" (.bool true) readSwitch
  let maxsize ← read "MORPHEUS_CACHE_MAXSIZE" (.int 1024) fun t =>
    t.toInt?.elim (invalid "MORPHEUS_CACHE_MAXSIZE" t) fun n => .ok (.int n)
  let ttl ← read "MORPHEUS_CACHE_TTL" .none fun t =>
    t.toFloat?.elim (invalid "MORPHEUS_CACHE_TTL" t) fun x => .ok (.real x)
  ofParts fusion maxsize ttl clock
where
  read (name : Text) (missing : Value) (f : Text → Except Fault Value) : Except Fault Value :=
    match environment.reverse.lookup name with
    | some t => f t
    | none => .ok missing

end EngineSettings

/-- What a cache takes from settings. Each part is read when it is needed, which can fail. -/
structure CacheSettings where
  defaultTtl : Except Fault Value
  maxsize : Except Fault Value
  clock : Except Fault Clock

namespace CacheSettings

def ofEngine (s : EngineSettings) : CacheSettings :=
  ⟨.ok s.defaultCacheTtl, .ok s.cacheMaxsize, .ok s.clock⟩

instance : Coe EngineSettings CacheSettings := ⟨ofEngine⟩

/-- A value in place of settings: it shows the parts as attributes. -/
def ofValue (v : Value) : CacheSettings :=
  ⟨v.readAttribute "default_cache_ttl", v.readAttribute "cache_maxsize",
    (v.readAttribute "timer").map .asked⟩

end CacheSettings

end MorphEngine
