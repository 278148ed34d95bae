import StreamPipeline.Release.Manifest

/-!
# Releases

A release is one version of what runs under a name. The versions of a name are counted from one on,
and only the latest of them can be running.
-/

namespace StreamPipeline

/-- What has become of a release. -/
inductive ReleaseStatus
  | deployed
  | deleted
  | failed
  deriving DecidableEq, Repr

namespace ReleaseStatus

/-- Every status. -/
def all : List ReleaseStatus := [deployed, deleted, failed]

/-- The word for a status. -/
def word : ReleaseStatus → String
  | deployed => "deployed"
  | deleted => "deleted"
  | failed => "failed"

/-- The status that a word names. -/
def ofWord? (s : String) : Option ReleaseStatus := all.find? (·.word == s)

end ReleaseStatus

/-- One version of what runs under a name. -/
structure Release where
  name : String
  version : Nat
  manifest : Manifest
  platform : String
  package : PackageInfo
  status : ReleaseStatus
  /-- What happened to the release last. -/
  description : String
  /-- The text of the overrides that led to it. -/
  values : String
  deriving DecidableEq

/-- Whether the release is running. -/
def Release.isLive (r : Release) : Bool := r.status == .deployed

/-- A package that has been uploaded. -/
structure Upload where
  info : PackageInfo
  digest : String
  deriving DecidableEq, Repr

/-- What is to be installed. -/
structure Installation where
  release : String
  package : String
  packageVersion : String
  platform : String
  values : String
  deriving DecidableEq, Repr

/-- What a running release is to be replaced with. -/
structure Upgrade where
  release : String
  package : String
  packageVersion : String
  values : String
  /-- Whether also what has not changed is to be replaced. -/
  force : Bool
  deriving DecidableEq, Repr

end StreamPipeline
