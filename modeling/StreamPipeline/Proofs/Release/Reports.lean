import StreamPipeline.Proofs.Definition
import StreamPipeline.Proofs.Properties
import StreamPipeline.Proofs.Release.Computed

/-!
# What stages report

What stages report is kept beside the releases, and no command looks at it: with other reports a
command comes to the same, and leaves the reports as `Command.told` says (`attempt_reporting`). A
command that makes or ends a release of a name clears what its stages report.

**A release starts with a clean status under names of its own** (`statuses_start_afresh`), and a
state that a stage is made to report afterwards is gone with the release.
-/

namespace StreamPipeline

namespace Ledger

variable {l k : Ledger} {name label : String} {s : State} {c : Command}
  {m m' : StringMap (StringMap State)}

/-! ### Commands and reports -/

/-- The name under which a command makes a release. -/
def Command.makes? : Command → Option String
  | .install i => some i.release
  | .upgrade u => some u.release
  | .rollback name _ => some name
  | _ => none

/-- The name under which a command makes or ends a release. -/
def Command.renews? : Command → Option String
  | .delete name => some name
  | c => c.makes?

/-- What stages report after a command that succeeds. -/
def Command.told (c : Command) (m : StringMap (StringMap State)) : StringMap (StringMap State) :=
  match c, c.renews? with
  | .setState name label s, _ => m.insert name (((m.get? name).getD ∅).insert label s)
  | _, some name => m.erase name
  | _, none => m

/-- The ledger with other reports, and with another state from which all stages start. -/
def reporting (l : Ledger) (m : StringMap (StringMap State)) (s : State) : Ledger :=
  { l with reported := m, initial := s }

@[simp] theorem history_reporting (n : String) : (l.reporting m s).history n = l.history n := rfl

@[simp] theorem live_reporting (n : String) : (l.reporting m s).live n = l.live n := rfl

@[simp] theorem latest_reporting (n : String) : (l.reporting m s).latest n = l.latest n := rfl

@[simp] theorem stored_reporting (n version : String) :
    (l.reporting m s).stored n version = l.stored n version := rfl

@[simp] theorem nextVersion_reporting (n : String) :
    (l.reporting m s).nextVersion n = l.nextVersion n := rfl

@[simp] theorem platforms_reporting : (l.reporting m s).platforms = l.platforms := rfl

theorem push_reporting (r : Release) :
    (l.reporting m s).push r = (l.push r).reporting (m.erase r.name) s := rfl

theorem retire_reporting (n d : String) :
    (l.reporting m s).retire n d = (l.retire n d).reporting m s := by
  simp only [retire, history_reporting]
  split
  · split <;> rfl
  · rfl

theorem install_reporting (i : Installation) : (l.reporting m s).install i =
    (l.install i).map fun r => (r.1, r.2.reporting (m.erase i.release) s) := by
  unfold install
  cases hp : l.platforms.any (·.name == i.platform) with
  | false => simp [hp, throw, throwThe, MonadExceptOf.throw, bind, Except.bind, Except.map]
  | true =>
      cases hlive : (l.live i.release).isOk with
      | true =>
          simp [hp, hlive, throw, throwThe, MonadExceptOf.throw, bind, Except.bind, Except.map]
      | false =>
          cases hs : l.stored i.package i.packageVersion with
          | error e => simp [hp, hlive, hs, bind, Except.bind, Except.map]
          | ok p =>
              cases hm : Manifest.ofPackage p.package <;>
                simp [hp, hlive, hs, hm, bind, Except.bind, pure, Except.pure, Except.map,
                  push_reporting]

theorem upgrade_reporting (u : Upgrade) : (l.reporting m s).upgrade u =
    (l.upgrade u).map fun r => (r.1, r.2.reporting (m.erase u.release) s) := by
  simp only [upgrade, live_reporting, stored_reporting, nextVersion_reporting, retire_reporting,
    push_reporting]
  cases l.live u.release with
  | error e => rfl
  | ok previous =>
      cases l.stored u.package u.packageVersion with
      | error e => rfl
      | ok p =>
          cases hm : Manifest.ofPackage p.package <;>
            simp [hm, bind, Except.bind, pure, Except.pure, Except.map]

theorem rollback_reporting (hl : l.Orderly) (n : String) (version : Nat) :
    (l.reporting m s).rollback n version =
      (l.rollback n version).map fun r => (r.1, r.2.reporting (m.erase n) s) := by
  simp only [rollback, latest_reporting, history_reporting, retire_reporting, push_reporting]
  cases hlatest : l.latest n with
  | error e => rfl
  | ok latest =>
      simp only [bind, Except.bind]
      cases hfind : (l.history n).find? _ with
      | none => rfl
      | some target =>
          have hname : target.name = n := (hl n).name_eq target (List.mem_of_find?_eq_some hfind)
          simp [hname, pure, Except.pure, Except.map]

/-- **No command looks at what stages report.** -/
theorem attempt_reporting (hl : l.Orderly) (c : Command) (m : StringMap (StringMap State))
    (s : State) : attempt c (l.reporting m s) =
      (attempt c l).map fun r => (r.1, r.2.reporting (c.told m) s) := by
  cases c with
  | upload text =>
      simp only [attempt, upload]
      cases Package.ofText? text <;> rfl
  | deletePackage n => rfl
  | setState n label t => rfl
  | install i =>
      simp only [attempt, install_reporting]
      cases l.install i <;> rfl
  | upgrade u =>
      simp only [attempt, upgrade_reporting]
      cases l.upgrade u <;> rfl
  | rollback n version =>
      simp only [attempt, rollback_reporting hl]
      cases l.rollback n version <;> rfl
  | delete n =>
      simp only [attempt, delete, live_reporting, retire_reporting]
      cases l.live n <;> rfl

/-- What a command leaves: other reports, and the state from which stages start. -/
theorem reported_of_attempt (hl : l.Orderly) {r : Option Release} (h : attempt c l = .ok (r, k)) :
    k.reported = c.told l.reported ∧ k.initial = l.initial := by
  have hsame : attempt c l = (attempt c l).map fun r =>
      (r.1, r.2.reporting (c.told l.reported) l.initial) :=
    attempt_reporting hl c l.reported l.initial
  rw [h] at hsame
  have hk : k = k.reporting (c.told l.reported) l.initial := (Prod.mk.inj (Except.ok.inj hsame)).2
  exact ⟨(congrArg reported hk).trans rfl, (congrArg initial hk).trans rfl⟩

theorem initial_perform (hl : l.Orderly) (c : Command) : (l.perform c).2.initial = l.initial := by
  rcases perform_cases l c with ⟨e, -, hc⟩ | ⟨r, k, ha, hc⟩
  · rw [hc]
  · rw [hc]
    exact (reported_of_attempt hl ha).2

theorem initial_of_reaches (hl : l.Orderly) (t : Reaches l k) : k.initial = l.initial := by
  induction t with
  | refl => rfl
  | step t c ih => exact (initial_perform (hl.reaches t) c).trans ih

/-! ### New releases -/

/-- A command that makes a release of a name leaves it running, with a higher version than all
before it. -/
theorem running_of_makes (hl : l.Orderly) (hc : c.makes? = some name) {r : Release}
    (h : attempt c l = .ok (some r, k)) :
    k.live name = .ok r ∧ ∀ q ∈ l.history name, q.version < r.version := by
  have hlater : ∀ v, v = (l.history name).length + 1 → ∀ q ∈ l.history name, q.version < v :=
    fun v hv q hq => hv ▸ Nat.lt_succ_of_le ((hl name).version_le q hq)
  cases c with
  | install i =>
      obtain rfl := Option.some.inj hc
      obtain ⟨⟨r', k'⟩, hi, hk⟩ := Except.map_eq_ok_iff.1 h
      obtain ⟨-, -, p, m, -, -, rfl, rfl⟩ := install_eq_ok_iff.1 hi
      cases hk
      exact ⟨live_push rfl, hlater _ (hl.nextVersion _)⟩
  | upgrade u =>
      obtain rfl := Option.some.inj hc
      obtain ⟨⟨r', k'⟩, hu, hk⟩ := Except.map_eq_ok_iff.1 h
      obtain ⟨previous, p, m, -, -, -, rfl, rfl⟩ := upgrade_eq_ok_iff.1 hu
      cases hk
      exact ⟨live_push rfl, hlater _ (hl.nextVersion _)⟩
  | rollback n version =>
      obtain rfl := Option.some.inj hc
      obtain ⟨⟨r', k'⟩, hr, hk⟩ := Except.map_eq_ok_iff.1 h
      obtain ⟨latest, target, hlatest, htarget, rfl, rfl⟩ := rollback_eq_ok_iff.1 hr
      cases hk
      have hname : target.name = n := (hl n).name_eq target (List.mem_of_find?_eq_some htarget)
      refine ⟨?_, hlater _ (congrArg (· + 1) (hl.latest_version hlatest))⟩
      have hlive := live_push (l := l.retire n (superseded (latest.version + 1)))
        (r := restored latest version target) rfl
      rwa [show (restored latest version target).name = n from hname] at hlive
  | _ => cases hc

theorem status_of_live {r : Release} (h : l.live name = .ok r) : l.status name =
    .ok (r.manifest.entries.map fun e =>
      ⟨e.label, stageId name e.label r.version, l.stateOf name e.label⟩) := by
  rw [status, h]
  rfl

/-- The stages of a new release report the state from which all stages start. -/
theorem status_of_makes (hl : l.Orderly) (hc : c.makes? = some name) {r : Release}
    (h : attempt c l = .ok (some r, k)) : k.status name =
      .ok (r.manifest.labels.map fun label =>
        ⟨label, stageId name label r.version, l.initial⟩) := by
  obtain ⟨hreported, hinitial⟩ := reported_of_attempt hl h
  have hclear : k.reported.get? name = none := by
    cases c with
    | install i | upgrade u | rollback n version =>
        obtain rfl := Option.some.inj hc
        rw [hreported]
        exact (StringMap.get?_erase _ _ _).trans (if_pos rfl)
    | _ => cases hc
  have hstate : ∀ label, k.stateOf name label = l.initial := fun label => by
    rw [stateOf, hclear, hinitial]
    rfl
  rw [status_of_live (running_of_makes hl hc h).1, Manifest.labels, List.map_map]
  simp only [hstate, Function.comp_def]

/-! ### One stage -/

/-- What a stage was made to report. -/
def heard (m : StringMap (StringMap State)) (name label : String) : Option State :=
  (m.get? name).bind (·.get? label)

theorem heard_told_setState (name label n b : String) (s : State) :
    heard (Command.told (.setState name label s) m) n b =
      if n = name ∧ b = label then some s else heard m n b := by
  simp only [heard, Command.told, StringMap.get?_insert]
  by_cases hn : n = name
  · cases h : m.get? name <;> simp [hn, h, StringMap.get?_insert]
  · simp [hn]

theorem told_of_renews (hc : c.renews? = some name) (m : StringMap (StringMap State)) :
    c.told m = m.erase name := by
  cases c with
  | upload | deletePackage | setState => cases hc
  | install i | upgrade u | rollback n version | delete n => cases hc; rfl

theorem told_of_renews_eq_none (hc : c.renews? = none) (hset : ∀ n b s, c ≠ .setState n b s)
    (m : StringMap (StringMap State)) : c.told m = m := by
  cases c with
  | upload | deletePackage => rfl
  | setState n b s => exact absurd rfl (hset n b s)
  | install | upgrade | rollback | delete => cases hc

/-- Ledgers that agree but for what one stage of a name reports. -/
structure AlikeBut (name label : String) (l l' : Ledger) : Prop where
  rest : l' = l.reporting l'.reported l.initial
  others : l'.reported.erase name = l.reported.erase name
  beside : ∀ b, b ≠ label → heard l'.reported name b = heard l.reported name b

/-- A command succeeds that makes or ends a release of a name. -/
def Renews (name : String) (l : Ledger) (c : Command) : Prop :=
  c.renews? = some name ∧ (l.perform c).1.isOk = true

/-- One of some commands makes or ends a release of a name. -/
def Renewed (name : String) (l : Ledger) (cs : List Command) : Prop :=
  ∃ before c later, cs = before ++ c :: later ∧ (l.after before).Renews name c

theorem after_append_cons (l : Ledger) (before later : List Command) (c : Command) :
    l.after (before ++ c :: later) = ((l.after before).perform c).2.after later :=
  List.foldl_append ..

theorem alikeBut_setState (l : Ledger) (name label : String) (s : State) :
    AlikeBut name label l (l.setState name label s) where
  rest := rfl
  others := StringMap.erase_insert _ _ _
  beside b hb := (heard_told_setState name label name b s).trans (if_neg fun h => hb h.2)

namespace AlikeBut

variable {l' : Ledger}

theorem heard_eq (h : AlikeBut name label l l') {n b : String} (hne : ¬ (n = name ∧ b = label)) :
    heard l'.reported n b = heard l.reported n b := by
  by_cases hn : n = name
  · subst hn
    exact h.beside b fun hb => hne ⟨rfl, hb⟩
  · rw [heard, StringMap.get?_of_erase_eq h.others hn, heard]

/-- What a command makes of reports that agree but for one stage. -/
theorem told (h : AlikeBut name label l l') (c : Command) :
    (c.told l'.reported).erase name = (c.told l.reported).erase name ∧
      ∀ b, b ≠ label → heard (c.told l'.reported) name b = heard (c.told l.reported) name b := by
  have hothers := fun {n : String} hn => StringMap.get?_of_erase_eq h.others (j := n) hn
  cases hc : c.renews? with
  | some n =>
      rw [told_of_renews hc, told_of_renews hc]
      refine ⟨StringMap.ext_get? fun j => ?_, fun b hb => ?_⟩
      · simp only [StringMap.get?_erase]
        split
        · rfl
        · rename_i hj
          rw [hothers hj]
      · simp only [heard, StringMap.get?_erase]
        split
        · rfl
        · exact h.beside b hb
  | none =>
      by_cases hset : ∃ n b s, c = .setState n b s
      · obtain ⟨n, b, s, rfl⟩ := hset
        refine ⟨StringMap.ext_get? fun j => ?_, fun a ha => ?_⟩
        · simp only [StringMap.get?_erase, Command.told, StringMap.get?_insert]
          split
          · rfl
          · rename_i hj
            split
            · rename_i hn
              rw [hothers (hn ▸ hj)]
            · rw [hothers hj]
        · rw [heard_told_setState, heard_told_setState, h.beside a ha]
      · have hset : ∀ n b s, c ≠ .setState n b s := fun n b s hc => hset ⟨n, b, s, hc⟩
        rw [told_of_renews_eq_none hc hset, told_of_renews_eq_none hc hset]
        exact ⟨h.others, h.beside⟩

/-- **One command** comes to the same, and the ledgers agree but for the stage afterwards; if it
makes or ends a release of the name, they are the same. -/
theorem perform (h : AlikeBut name label l l') (hl : l.Orderly) (c : Command) :
    (l'.perform c).1 = (l.perform c).1 ∧ AlikeBut name label (l.perform c).2 (l'.perform c).2 ∧
      (l'.Renews name c → (l'.perform c).2 = (l.perform c).2) := by
  have hattempt := attempt_reporting hl c l'.reported l.initial
  rw [← h.rest] at hattempt
  rcases perform_cases l c with ⟨e, ha, hc⟩ | ⟨r, k, ha, hc⟩
  · rw [ha] at hattempt
    have hc' : l'.perform c = (.error e, l') := by
      rw [Ledger.perform, Call.apply, hattempt]
      rfl
    rw [hc, hc']
    refine ⟨rfl, h, fun hrenews => ?_⟩
    rw [Renews, hc'] at hrenews
    exact absurd hrenews.2 Bool.false_ne_true
  · rw [ha] at hattempt
    have hc' : l'.perform c = (.ok r, k.reporting (c.told l'.reported) l.initial) := by
      rw [Ledger.perform, Call.apply, hattempt]
      rfl
    obtain ⟨hreported, hinitial⟩ := reported_of_attempt hl ha
    obtain ⟨hothers, hbeside⟩ := h.told c
    rw [hc, hc']
    refine ⟨rfl, ⟨by rw [← hinitial]; rfl, by rw [hreported]; exact hothers,
      by rw [hreported]; exact hbeside⟩, fun hrenews => ?_⟩
    have htold : c.told l'.reported = k.reported := by
      rw [hreported, told_of_renews hrenews.1, told_of_renews hrenews.1, h.others]
    rw [htold, ← hinitial]
    rfl

/-- **Any commands.** -/
theorem after (h : AlikeBut name label l l') (hl : l.Orderly) (cs : List Command) :
    AlikeBut name label (l.after cs) (l'.after cs) := by
  induction cs generalizing l l' with
  | nil => exact h
  | cons c cs ih => exact ih (h.perform hl c).2.1 (hl.perform c)

/-- Commands of which one makes or ends a release of the name. -/
theorem after_eq (h : AlikeBut name label l l') (hl : l.Orderly) {cs : List Command}
    (hcs : l'.Renewed name cs) : l'.after cs = l.after cs := by
  obtain ⟨before, c, later, rfl, hrenews⟩ := hcs
  have hbefore := hl.reaches (reaches_iff.2 ⟨before, rfl⟩)
  rw [after_append_cons, after_append_cons, ((h.after hl before).perform hbefore c).2.2 hrenews]

end AlikeBut

/-- Until a release is made or ended under the name, or it is made to report otherwise, a stage goes
on reporting what it was made to. -/
theorem heard_after (hl : l.Orderly) {cs : List Command} (hcs : ¬ l.Renewed name cs)
    (hset : ∀ t, .setState name label t ∉ cs) :
    heard (l.after cs).reported name label = heard l.reported name label := by
  induction cs generalizing l with
  | nil => rfl
  | cons c cs ih =>
      refine (ih (hl.perform c) (fun ⟨before, d, later, hd, hrenews⟩ =>
        hcs ⟨c :: before, d, later, by rw [hd]; rfl, hrenews⟩) fun t ht =>
          hset t (List.mem_cons_of_mem c ht)).trans ?_
      rcases perform_cases l c with ⟨e, -, hc⟩ | ⟨r, k, ha, hc⟩
      · rw [hc]
      rw [hc, (reported_of_attempt hl ha).1]
      cases hrenews : c.renews? with
      | some n =>
          have hn : name ≠ n := fun hn =>
            hcs ⟨[], c, cs, rfl, hn ▸ hrenews, by rw [after, List.foldl_nil, hc]; rfl⟩
          rw [told_of_renews hrenews, heard, StringMap.get?_erase, if_neg hn, heard]
      | none =>
          by_cases hsets : ∃ n b t, c = .setState n b t
          · obtain ⟨n, b, t, rfl⟩ := hsets
            rw [heard_told_setState, if_neg]
            rintro ⟨rfl, rfl⟩
            exact hset t List.mem_cons_self
          · rw [told_of_renews_eq_none hrenews fun n b t hc => hsets ⟨n, b, t, hc⟩]

/-- Reports about the stages of `n` in which one stage of a name reports a state. -/
def restated (name label : String) (s : State) (n : String) (reports : List StageStatus) :
    List StageStatus :=
  reports.map fun r => if n = name ∧ r.label = label then { r with state := s } else r

/-- The status of a name differs in the state of that stage only. -/
theorem AlikeBut.status_eq {l' : Ledger} (h : AlikeBut name label l l') (n : String) :
    l'.status n = (l.status n).map (restated name label (l'.stateOf name label) n) := by
  have hlive : l'.live n = l.live n := by rw [h.rest, live_reporting]
  have hinitial : l'.initial = l.initial := (congrArg initial h.rest).trans rfl
  cases hl : l.live n with
  | error e =>
      rw [status, status, hlive, hl]
      rfl
  | ok r =>
      rw [status_of_live hl, status_of_live (hlive.trans hl), Except.map, restated, List.map_map]
      refine congrArg _ (List.map_congr_left fun e _ => ?_)
      by_cases he : n = name ∧ e.label = label
      · simp [he]
      · have hheard : heard l'.reported n e.label = heard l.reported n e.label := h.heard_eq he
        have hstate : l'.stateOf n e.label = l.stateOf n e.label := by
          rw [stateOf, stateOf, hinitial]
          exact congrArg (Option.getD · _) hheard
        simp [he, hstate]

/-! ### Names of stages -/

/-- A pipeline's name has no dot. -/
theorem dot_notMem_name (h : Definition.IsWellNamed name) : '.' ∉ name.toList := by
  obtain ⟨c, r, hname, hc, hr⟩ := h.form
  rw [hname, List.mem_cons, not_or]
  refine ⟨fun hdot => by rw [← hdot] at hc; exact absurd hc (by decide), fun hdot => ?_⟩
  exact absurd (hr '.' hdot) (by decide)

/-- **The names of stages tell pipelines, labels and versions apart**, whatever the labels are. -/
theorem stageId_inj {name' label' : String} {version version' : Nat}
    (hname : Definition.IsWellNamed name) (hname' : Definition.IsWellNamed name')
    (h : stageId name label version = stageId name' label' version') :
    name = name' ∧ label = label' ∧ version = version' := by
  have hid : ∀ name label version, (stageId name label version).toList =
      name.toList ++ '.' :: ((label.toList ++ ['-']) ++ 'v' :: Nat.toDigits 10 version) := by
    intro name label version
    simp [stageId, Nat.repr]
  have hchars := congrArg String.toList h
  rw [hid, hid] at hchars
  obtain ⟨hnames, -⟩ := Properties.eq_of_dot_isPrefix (dot_notMem_name hname)
    (dot_notMem_name hname') (hchars.subst (motive := (_ <+: ·)) List.prefix_rfl)
  rw [hnames] at hchars
  obtain ⟨hlabels, hversions⟩ := Text.append_last_inj (Text.notMem_toDigits (by decide) version)
    (Text.notMem_toDigits (by decide) version') (List.cons.inj (List.append_cancel_left hchars)).2
  exact ⟨String.toList_inj.1 hnames, String.toList_inj.1 (List.append_cancel_right hlabels),
    Text.toDigits_inj hversions⟩

/-! ### Status -/

/-- **A new release starts with a clean status under names of its own.** After any commands to a
ledger without releases, whatever stages were made to report under whatever names,

* right after a command that makes a release of a name the status lists the labels of its manifest
  in order, each in the state from which all stages start, under the next version;
* where a stage is made to report a state, all commands from then on come to the same as if it was
  not, and every status is the same but for the state of that label of that name. The stage reports
  that state until it is made to report another one, or a release of the name is made or ended; from
  then on nothing is different at all.

The names of stages tell well-named pipelines, labels and versions apart, whatever the labels. -/
theorem statuses_start_afresh (platforms : List Platform) (initial : State) :
    (∀ l, Reaches { platforms, initial } l →
      (∀ c name r, c.makes? = some name → (l.perform c).1 = .ok (some r) →
        (l.perform c).2.status name = .ok (r.manifest.labels.map fun label =>
          ⟨label, stageId name label r.version, initial⟩) ∧
        ∀ q ∈ l.history name, q.version < r.version) ∧
      ∀ name label s cs, ∃ t,
        (∀ c, (((l.setState name label s).after cs).perform c).1 = ((l.after cs).perform c).1) ∧
        (∀ n, ((l.setState name label s).after cs).status n =
          ((l.after cs).status n).map (restated name label t n)) ∧
        (¬ (l.setState name label s).Renewed name cs → (∀ u, .setState name label u ∉ cs) →
          t = s) ∧
        ((l.setState name label s).Renewed name cs →
          (l.setState name label s).after cs = l.after cs)) ∧
    ∀ name label version name' label' version', Definition.IsWellNamed name →
      Definition.IsWellNamed name' → stageId name label version = stageId name' label' version' →
      name = name' ∧ label = label' ∧ version = version' := by
  refine ⟨fun l t => ?_, fun _ _ _ _ _ _ => stageId_inj⟩
  have hnone : Orderly { platforms, initial } := fun _ => .nil
  have hl := hnone.reaches t
  refine ⟨fun c name r hc hr => ?_, fun name label s cs => ?_⟩
  · rcases perform_cases l c with ⟨e, -, hp⟩ | ⟨r', k, ha, hp⟩
    · rw [hp] at hr
      cases hr
    · rw [hp] at hr ⊢
      obtain rfl := Except.ok.inj hr
      have hstatus := status_of_makes hl hc ha
      rw [initial_of_reaches hnone t] at hstatus
      exact ⟨hstatus, (running_of_makes hl hc ha).2⟩
  · have halike := (alikeBut_setState l name label s).after hl cs
    have hcs := hl.reaches (reaches_iff.2 ⟨cs, rfl⟩)
    refine ⟨((l.setState name label s).after cs).stateOf name label,
      fun c => (halike.perform hcs c).1, halike.status_eq, fun hspared hset => ?_,
      (alikeBut_setState l name label s).after_eq hl⟩
    have hheard := heard_after (hl.perform (.setState name label s)) hspared hset
    have hset := heard_told_setState (m := l.reported) name label name label s
    rw [if_pos ⟨rfl, rfl⟩] at hset
    exact congrArg (Option.getD · _) (hheard.trans hset)

/-- A stage that was made to report a failure reports it until its pipeline is rolled back; and a
label that looks like a version is no other version. -/
theorem statuses_start_afresh_clock : ∃ l r,
    Reaches { platforms := [⟨"default", "local", "In-process platform"⟩], initial := .deployed } l ∧
    (l.setState "clock" "time" .failed).status "clock" =
      .ok [⟨"time", "clock.time-v1", .failed⟩] ∧
    ((l.setState "clock" "time" .failed).perform (.rollback "clock" 1)).1 = .ok (some r) ∧
    ((l.setState "clock" "time" .failed).perform (.rollback "clock" 1)).2.status "clock" =
      .ok [⟨"time", "clock.time-v2", .deployed⟩] ∧
    stageId "clock" "time-v1" 2 ≠ stageId "clock" "time" 1 := by
  let time : Entry :=
    ⟨"time", "time", .source, { resource := "maven://apps:time:1.0.0", version := "1.0.0" }⟩
  obtain ⟨l, r, t, hmanifest, hlive, hhistory⟩ := exists_release_of
    { platforms := [⟨"default", "local", "In-process platform"⟩], initial := .deployed }
    { name := "clock", version := "1.0.0", repository := "local", kind := .pipeline } [time]
    ⟨"clock", "clock", "1.0.0", "default", ""⟩ rfl rfl rfl rfl
  have hhistory : l.history "clock" = [r] := hhistory
  obtain ⟨hstatus, hid⟩ := statuses_start_afresh [⟨"default", "local", "In-process platform"⟩]
    .deployed
  have hversion : r.version = 1 := by
    have hversions := (Orderly.reaches (fun _ => .nil) t "clock").versions
    rw [hhistory] at hversions
    simpa using hversions
  have hlabels : r.manifest.labels = ["time"] := congrArg Manifest.labels hmanifest
  obtain ⟨k, hrolled⟩ : ∃ k, (l.setState "clock" "time" .failed).rollback "clock" 1 =
      .ok (restored r 1 r, k) :=
    ⟨_, rollback_eq_ok_iff.2 ⟨r, r, latest_eq_ok_iff.2 ⟨[], hhistory⟩,
      by simp [hhistory, rollbackTarget, hversion], rfl, rfl⟩⟩
  have hperformed : ((l.setState "clock" "time" .failed).perform (.rollback "clock" 1)).1 =
      .ok (some (restored r 1 r)) := by
    simp [perform, Call.apply, attempt, hrolled, Except.map]
  refine ⟨l, restored r 1 r, t, ?_, hperformed, ?_, fun h => ?_⟩
  · obtain ⟨s, -, hset, hkept, -⟩ := (hstatus l t).2 "clock" "time" .failed []
    have hspared : ¬ (l.setState "clock" "time" .failed).Renewed "clock" [] := by
      rintro ⟨before, c, later, h, -⟩
      simp at h
    obtain rfl := hkept hspared (by simp)
    have hlisted : l.status "clock" =
        .ok [⟨"time", "clock.time-v1", l.stateOf "clock" "time"⟩] := by
      rw [status_of_live (live_eq_ok_iff.2 ⟨_, hhistory, hlive⟩), hmanifest, hversion]
      rfl
    refine (hset "clock").trans ?_
    rw [after, List.foldl_nil, hlisted]
    rfl
  · have hmakes := (hstatus _ (t.step (.setState "clock" "time" .failed))).1 _ "clock" _ rfl
      hperformed
    refine hmakes.1.trans ?_
    rw [show (restored r 1 r).manifest.labels = ["time"] from hlabels,
      show (restored r 1 r).version = 2 from congrArg (· + 1) hversion]
    rfl
  · have hnamed : Definition.IsWellNamed "clock" := Definition.isName_iff.1 (by decide)
    exact absurd (hid _ _ _ _ _ _ hnamed hnamed h).2.2 (by decide)

end Ledger

end StreamPipeline
