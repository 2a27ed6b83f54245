import ScriptModules.Convert
import ScriptModules.Proofs.Disk.Step

/-!
# The stages of a conversion

A conversion first makes a plan, which reads the disk only. Then the destination is cleared and the
files are written, and last the report. The equations here name these stages, so that each can be
spoken about by itself:

* `value_on_convert`: the plan, then its carrying out;
* `value_prepare`, `prepare_ok_iff`: the input files, their link and the foldings that make up the
  plan;
* `value_on_writeModules`: the check of the aggregator's name, clearing and filling;
* `value_on_carryOut`: the modules, then the report.
-/

namespace ScriptModules

/-- Surroundings in which no home folder is known. -/
def Surroundings.bare : Surroundings := ⟨⟨.root, []⟩, fun _ => none, ⟨.root, ["tmp"]⟩⟩

/-- Removes what is at the destination. -/
def clearing (dest : Path) : DiskStep EmitFault Unit := do
  if (← get).exists? dest then DiskStep.change (.disk · dest) fun d => d.removeTree dest

namespace State

/-- Writes the modules and the aggregator into the destination. -/
def filling (s : State) (current dest : Path) (indexKey : String) :
    DiskStep EmitFault (List Path) := do
  let modules ← s.files.keys.mapM (s.writeModule current dest)
  let p := outputPath dest indexKey
  emitFile p (renderAggregator current s.files.keys indexKey)
  DiskStep.notify (.wroteIndex p.toString)
  return modules ++ [p]

theorem value_on_writeModules (d : Disk) (s : State) (current dest : Path) (index : String) :
    (DiskStep.on d (s.writeModules current dest index)).value =
      if s.files.contains (normalize index) then (d, .error (.indexTaken index))
      else (DiskStep.on d
        (clearing dest >>= fun _ => s.filling current dest (normalize index))).value := by
  by_cases hindex : s.files.contains (normalize index) = true
  · simp only [writeModules, hindex, if_true]
    rw [DiskStep.value_on_bind]
    rfl
  · simp only [writeModules, clearing, filling, hindex, if_false, Bool.false_eq_true, bind_assoc]
    simp only [DiskStep.value_on_bind d get, DiskStep.value_on_get]
    by_cases hexists : d.exists? dest = true
    · simp only [hexists, if_true]
    · simp only [hexists, if_false, Bool.false_eq_true, pure_bind]

end State

namespace Attempt

variable {α β : Type}

/-- What an attempt gives, without its notices. -/
def value (x : Attempt α) : Except Fault α := x.run.value

theorem value_bind (x : Attempt α) (f : α → Attempt β) :
    (x >>= f).value = x.value >>= fun a => (f a).value := by
  show (ExceptT.bindCont f x.run.value).value = _
  unfold value
  cases x.run.value <;> rfl

theorem value_pure (a : α) : (pure a : Attempt α).value = .ok a := rfl

theorem value_ofExcept (x : Except Fault α) : (ofExcept x).value = x := by
  cases x <;> rfl

theorem value_ofLogged (x : Logged α) : (ofLogged x).value = .ok x.value := rfl

end Attempt

namespace Job

/-- The folders in which no scripts are looked for: the output folder and those to be ignored. -/
def skipped (d : Disk) (j : Job) (dest : Option Path) : Except Fault (List Path) := do
  let ignored ← j.ignored.mapM fun p => (d.canonical p).mapError .canonical
  return dest.toList ++ ignored

/-- The input files of a conversion, in order. -/
def inputs (ignoring : IgnoreReader) (w : Surroundings) (d : Disk) (j : Job) :
    Except Fault (List Path) := do
  let dest ← j.output w d
  j.inputPaths ignoring d (← j.skipped d dest)

/-- What a conversion reads from a disk: the names of its folders and the input files. -/
def Reads (ignoring : IgnoreReader) (j : Job) (d : Disk) (skip : List Path) (registry : Registry)
    (inputs : List Input) : Prop :=
  j.registry d skip = .ok registry ∧
    ∃ paths, j.inputPaths ignoring d skip = .ok paths ∧ paths.mapM (j.readInput d) = .ok inputs

/-- The plan that is made from names and files. -/
def planOf (parser : Parser) (j : Job) (dest : Option Path) (registry : Registry)
    (inputs : List Input) : Except Fault Plan := do
  let linkage ← (link parser j.ingestOptions registry inputs).value.mapError .link
  let folded := (linkage.state.resolve j.resolveOptions).value
  return ⟨dest, folded.1, folded.2⟩

theorem planOf_ok_iff {parser : Parser} {j : Job} {dest : Option Path} {registry : Registry}
    {inputs : List Input} {plan : Plan} :
    j.planOf parser dest registry inputs = .ok plan ↔ ∃ linkage,
      (link parser j.ingestOptions registry inputs).value = .ok linkage ∧
      plan = ⟨dest, (linkage.state.resolve j.resolveOptions).value.1,
        (linkage.state.resolve j.resolveOptions).value.2⟩ := by
  simp only [planOf, bind_eq_ok_iff, mapError_eq_ok_iff, pure, Except.pure, Except.ok.injEq]
  simp only [eq_comm]

theorem planOf_dest {parser : Parser} {j : Job} {dest : Option Path} {registry : Registry}
    {inputs : List Input} {plan : Plan} (h : j.planOf parser dest registry inputs = .ok plan) :
    plan.dest = dest := by
  obtain ⟨linkage, -, rfl⟩ := planOf_ok_iff.mp h
  rfl

/-- The output folder takes no part in the making of a plan. -/
theorem planOf_redirect {parser : Parser} {j : Job} {dest dest' : Option Path} {registry : Registry}
    {inputs : List Input} {plan : Plan} (h : j.planOf parser dest registry inputs = .ok plan) :
    j.planOf parser dest' registry inputs = .ok { plan with dest := dest' } := by
  obtain ⟨linkage, hlinkage, rfl⟩ := planOf_ok_iff.mp h
  exact planOf_ok_iff.mpr ⟨linkage, hlinkage, rfl⟩

theorem value_prepare (tools : Tools) (w : Surroundings) (d : Disk) (j : Job) :
    (j.prepare tools w d).value = (do
      let dest ← j.output w d
      let skip ← j.skipped d dest
      let registry ← j.registry d skip
      let paths ← j.inputPaths tools.ignoring d skip
      let inputs ← paths.mapM (j.readInput d)
      j.planOf tools.parser dest registry inputs) := by
  unfold prepare skipped planOf
  simp only [Attempt.value_bind, Attempt.value_ofExcept, Attempt.value_ofLogged, bind_assoc]
  rfl

theorem value_prepare_of_paths {tools : Tools} {w : Surroundings} {d : Disk} {j : Job}
    {dest : Option Path} {skip paths : List Path} {registry : Registry}
    (hout : j.output w d = .ok dest) (hskip : j.skipped d dest = .ok skip)
    (hregistry : j.registry d skip = .ok registry)
    (hpaths : j.inputPaths tools.ignoring d skip = .ok paths) :
    (j.prepare tools w d).value =
      paths.mapM (j.readInput d) >>= j.planOf tools.parser dest registry := by
  simp [value_prepare, hout, hskip, hregistry, hpaths, bind, Except.bind]

/-- What a plan is made from. -/
theorem prepare_ok_iff {tools : Tools} {w : Surroundings} {d : Disk} {j : Job} {plan : Plan} :
    (j.prepare tools w d).value = .ok plan ↔ ∃ skip registry inputs,
      j.output w d = .ok plan.dest ∧ j.skipped d plan.dest = .ok skip ∧
      j.Reads tools.ignoring d skip registry inputs ∧
      j.planOf tools.parser plan.dest registry inputs = .ok plan := by
  simp only [value_prepare, bind_eq_ok_iff]
  constructor
  · rintro ⟨dest, hdest, skip, hskip, registry, hregistry, paths, hpaths, inputs, hinputs, hplan⟩
    obtain rfl : plan.dest = dest := planOf_dest hplan
    exact ⟨skip, registry, inputs, hdest, hskip, ⟨hregistry, paths, hpaths, hinputs⟩, hplan⟩
  · rintro ⟨skip, registry, inputs, hdest, hskip, ⟨hregistry, paths, hpaths, hinputs⟩, hplan⟩
    exact ⟨plan.dest, hdest, skip, hskip, registry, hregistry, paths, hpaths, inputs, hinputs,
      hplan⟩

theorem value_on_convert (tools : Tools) (w : Surroundings) (j : Job) (d : Disk) :
    (DiskStep.on d (j.convert tools w)).value = match (j.prepare tools w d).value with
      | .ok plan => (DiskStep.on d (j.carryOut tools w plan)).value
      | .error f => (d, .error f) := by
  unfold convert Attempt.value
  simp only [DiskStep.value_on_bind, DiskStep.value_on_get, DiskStep.value_on_ofLogged,
    DiskStep.value_on_ofExcept]
  cases (j.prepare tools w d).run.value <;> rfl

/-- Writes the modules of a plan, if there is an output folder. -/
def emission (w : Surroundings) (j : Job) (plan : Plan) : DiskStep Fault (List Path) :=
  match plan.dest with
  | some dest => (plan.state.writeModules w.current dest j.options.index).adapt .emit
  | none => pure []

/-- Writes the report of a plan, if one is asked for. -/
def reporting (rules : Coercion) (w : Surroundings) (j : Job) (plan : Plan) :
    DiskStep Fault Unit := do
  match ← DiskStep.ofExcept id (j.reportPath w) with
  | some p => writeReport rules p plan
  | none => pure ()

theorem value_on_carryOut (tools : Tools) (w : Surroundings) (j : Job) (plan : Plan) (d : Disk) :
    (DiskStep.on d (j.carryOut tools w plan)).value =
      (DiskStep.on d (do
        let written ← j.emission w plan
        j.reporting tools.coercion w plan
        return { plan with written })).value := by
  refine congrArg (fun step => (DiskStep.on d step).value) ?_
  cases hdest : plan.dest <;> simp only [carryOut, emission, reporting, hdest, bind_assoc]
  all_goals
    refine bind_congr fun written => bind_congr fun report => ?_
    cases report <;> simp

theorem emission_ok_iff {w : Surroundings} {j : Job} {plan : Plan} {dest : Path}
    (hdest : plan.dest = some dest) {d d' : Disk} {written : List Path} :
    (DiskStep.on d (j.emission w plan)).value = (d', .ok written) ↔
      (DiskStep.on d (plan.state.writeModules w.current dest j.options.index)).value =
        (d', .ok written) := by
  simp only [emission, hdest, DiskStep.value_on_adapt]
  generalize (DiskStep.on d (plan.state.writeModules w.current dest j.options.index)).value = r
  obtain ⟨d₁, result⟩ := r
  cases result <;> simp

/-- Without a report, a conversion is a plan and the writing of its modules. -/
theorem convert_ok_iff {tools : Tools} {w : Surroundings} {j : Job}
    (hreport : j.options.report = none ∨ j.options.report = some "") {d d' : Disk}
    {c : Conversion} :
    (DiskStep.on d (j.convert tools w)).value = (d', .ok c) ↔
      (j.prepare tools w d).value = .ok c.toPlan ∧
        (DiskStep.on d (j.emission w c.toPlan)).value = (d', .ok c.written) := by
  have hpath : j.reportPath w = .ok none := by
    rcases hreport with h | h <;> simp [reportPath, h]
  have hreporting : ∀ (d : Disk) (plan : Plan),
      (DiskStep.on d (j.reporting tools.coercion w plan)).value = (d, .ok ()) := by
    intro d plan
    unfold reporting
    rw [hpath, DiskStep.value_on_bind_of_ok (DiskStep.value_on_ofExcept d id (.ok none))]
    rfl
  rw [value_on_convert]
  cases hplan : (j.prepare tools w d).value with
  | error f => simp
  | ok plan =>
    simp only [value_on_carryOut, Except.ok.injEq]
    constructor
    · intro h
      obtain ⟨d₁, written, hwritten, h⟩ := DiskStep.ok_of_bind h
      rw [DiskStep.value_on_bind_of_ok (hreporting d₁ plan)] at h
      cases h
      exact ⟨rfl, hwritten⟩
    · rintro ⟨rfl, hwritten⟩
      rw [DiskStep.value_on_bind_of_ok hwritten, DiskStep.value_on_bind_of_ok (hreporting d' _)]
      rfl

end Job

end ScriptModules
