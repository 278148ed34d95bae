import StreamPipeline.Definition.Stage

/-!
# Properties of a deployment

What is said at deployment about a pipeline's stages is one flat map. A key names a family, then a
label or a star for every stage, then the property; `forStage` is what a family says about one
stage, where what names the stage wins over what names all. A few keys speak of the release as a
whole.
-/

namespace StreamPipeline

/-- What is said at deployment. -/
abbrev Properties := StringMap String

namespace Properties

/-- A family of keys. -/
inductive Family
  /-- What configures an app. -/
  | app
  /-- What the platform is told. -/
  | deployer
  deriving DecidableEq, Repr

/-- What keys of a family start with. -/
def Family.text : Family → String
  | .app => "app."
  | .deployer => "deployer."

/-- What keys of a family that speak of a stage start with; the label may be a star. -/
def Family.start (f : Family) (label : String) : String := f.text ++ label ++ "."

/-- The label that stands for every stage. -/
def everyStage : String := "*"

/-- What stands behind `start` in a text, if the text starts so and goes on. -/
def restAfter? (start s : String) : Option String :=
  let front := start.toList
  let cs := s.toList
  if front.isPrefixOf cs && front.length < cs.length then
    some (String.ofList (cs.drop front.length))
  else none

/-- The entries whose key starts in a way, by what stands behind that. -/
def under (p : Properties) (start : String) : Settings :=
  StringMap.ofList (p.toList.filterMap fun e => (restAfter? start e.1).map (·, e.2))

/-- What a family says about a stage: about every stage, and over it about this one. -/
def forStage (p : Properties) (f : Family) (label : String) : Settings :=
  (p.under (f.start everyStage)).overlay (p.under (f.start label))

/-- The key under which a stage's version is pinned. -/
def versionKey (label : String) : String := "version." ++ label

/-- The version to which a stage is pinned; a blank one pins nothing. -/
def pinned? (p : Properties) (label : String) : Option String :=
  ((p.get? (versionKey label)).map Text.trim).filter (!·.isEmpty)

/-- Whether a key speaks of one stage by its label. -/
def names (label key : String) : Bool :=
  (Family.app.start label).toList.isPrefixOf key.toList
    || (Family.deployer.start label).toList.isPrefixOf key.toList || key == versionKey label

/-- Whether anything is said about a stage by its label. -/
def targets (p : Properties) (label : String) : Bool := p.keys.any (names label)

/-! ### The release as a whole -/

/-- The platform that is asked for. -/
def platform? (p : Properties) : Option String := p.get? "release.platform"

/-- The package name that is asked for. -/
def packageName? (p : Properties) : Option String := p.get? "release.package.name"

/-- The package version that is asked for. -/
def packageVersion? (p : Properties) : Option String := p.get? "release.package.version"

/-- The repository that is asked for. -/
def repository? (p : Properties) : Option String := p.get? "release.repository"

end Properties

end StreamPipeline
