import DocTypes.CommandLine.Run
import DocTypes.Proofs.Hierarchy
import DocTypes.Proofs.JsonLayout
import DocTypes.Proofs.ManifestRegistry
import DocTypes.Proofs.ManifestText

/-!
# Describing all classes or one

The command `handle_describe_command` can be asked for one class or for all classes of a manifest.
Whatever has been built before, the descriptor of a class is what is built for it, so both forms
describe a class alike (`descriptorOf_eq`, `describe_all_eq_ok_iff`), and one class that cannot be
built leaves the longer form without an answer. The answer for all classes is an object that holds
the answers for the single classes, indented by one level (`renderPretty_zip`). The main statement
is `run_describe_all`.
-/

namespace DocTypes.CommandLine

variable {f : MetadataFactory} {className text : String}

/-! ## What is described -/

/-- `descriptorOf` answers the descriptor that `f.build` makes for the class, as the cache is
valid. -/
theorem descriptorOf_eq (f : MetadataFactory) (className : String) :
    descriptorOf f className = (f.build className).mapError .metadata := by
  have hv : f.Valid 0 {} := f.valid_cacheAfter []
  rw [← hv.map_metadata]
  rfl

/-- `describe` shows for one class the `renderPretty` of the descriptor that `f.build` makes for
it. -/
theorem describe_class_eq_ok_iff :
    describe f (some className) = .ok text ↔
      ∃ d, f.build className = .ok d ∧ d.renderPretty = text := by
  rw [describe, descriptorOf_eq, map_eq_ok_iff]
  simp only [mapError_eq_ok_iff]

/-- `describe` shows for all classes an object of the descriptors that `f.build` makes for them, in
the order of `f.source`. -/
theorem describe_all_eq (f : MetadataFactory) :
    describe f none = ((f.source.keys.mapM f.build).mapError .metadata).map fun ds =>
      (Json.object (f.source.keys.zip (ds.map ClassDescriptor.toJson))).renderPretty := by
  have hv : f.Valid 0 {} := f.valid_cacheAfter []
  rw [← hv.map_metadataAll, describe]
  cases (f.metadataAll f.source.keys {}).1 with
  | error e => rfl
  | ok shared =>
    simp only [Except.map, Except.mapError, List.map_map]
    rfl

/-- `describe` has a text for all classes if `f.build` succeeds for all of them. -/
theorem describe_all_eq_ok_iff :
    describe f none = .ok text ↔
      ∃ ds, List.Forall₂ (fun c d => f.build c = .ok d) f.source.keys ds ∧
        (Json.object (f.source.keys.zip (ds.map ClassDescriptor.toJson))).renderPretty = text := by
  rw [describe_all_eq, map_eq_ok_iff]
  simp only [mapError_eq_ok_iff, mapM_eq_ok_iff]

/-- `describe` has a text for a class that `f.Builds`. -/
theorem exists_describe_class_iff :
    (∃ t, describe f (some className) = .ok t) ↔ f.Builds className := by
  simp only [describe_class_eq_ok_iff]
  constructor
  · rintro ⟨t, d, hd, -⟩
    exact ⟨d, hd⟩
  · rintro ⟨d, hd⟩
    exact ⟨d.renderPretty, d, hd, rfl⟩

/-- `describe` has a text for all classes if `f.Builds` each of them. -/
theorem exists_describe_all_iff :
    (∃ t, describe f none = .ok t) ↔ ∀ c ∈ f.source.keys, f.Builds c := by
  simp only [describe_all_eq_ok_iff]
  constructor
  · rintro ⟨t, ds, hds, -⟩ c hc
    obtain ⟨d, -, hd⟩ := exists_of_mem_forall₂ hds.flip hc
    exact ⟨d, hd⟩
  · intro hbuilds
    obtain ⟨ds, hds⟩ := exists_mapM_eq_ok hbuilds
    exact ⟨_, ds, mapM_eq_ok_iff.1 hds, rfl⟩

/-- The text that a class is described by, if `f.build` succeeds for it. -/
def descriptionOf (f : MetadataFactory) (className : String) : String :=
  match f.build className with
  | .ok d => d.renderPretty
  | .error _ => ""

/-- The text `descriptionOf` is what the class by itself is described by. -/
theorem describe_class_eq {d : ClassDescriptor} (h : f.build className = .ok d) :
    describe f (some className) = .ok (descriptionOf f className) := by
  rw [describe_class_eq_ok_iff, descriptionOf, h]
  exact ⟨d, rfl, rfl⟩

/-- The texts by `descriptionOf` for the single classes make up the text for all of them, by
`Json.objectText`. -/
theorem renderPretty_zip {classNames : List String} {ds : List ClassDescriptor}
    (h : List.Forall₂ (fun c d => f.build c = .ok d) classNames ds) :
    (Json.object (classNames.zip (ds.map ClassDescriptor.toJson))).renderPretty =
      String.ofList
        (Json.objectText (classNames.map fun c => (c, (descriptionOf f c).toList))) := by
  have hmembers : (classNames.zip (ds.map ClassDescriptor.toJson)).map
      (fun m => (m.1, Json.write .pretty 0 m.2)) =
        classNames.map fun c => (c, (descriptionOf f c).toList) := by
    induction h with
    | nil => rfl
    | @cons c d classNames ds hbuild _ ih =>
      have hdescription : (descriptionOf f c).toList = Json.write .pretty 0 d.toJson := by
        rw [descriptionOf, hbuild]
        exact String.toList_ofList
      simp only [List.map_cons, List.zip_cons_cons, hdescription, ih]
  rw [Json.renderPretty, Json.write_object, hmembers]

/-! ## The command -/

/-- The text is that of a manifest with the classes `declared`, and the manifest can be used: no two
classes have the same name, and its types make a registry. -/
def Loads (text : String) (declared : List ClassDeclaration) : Prop :=
  ∃ types m r, Manifest.parts? text = some (types, declared) ∧
    Manifest.ofParts types declared = .ok m ∧ m.registry = .ok r

/-- The factory that `factoryOf` makes of a text, as `factory_from_json` does, has its classes, its
registry and the one analyzer `objectProperties`. -/
theorem factoryOf_eq_ok_iff :
    factoryOf text = .ok f ↔ ∃ types declared m r, Manifest.parts? text = some (types, declared) ∧
      Manifest.ofParts types declared = .ok m ∧ m.registry = .ok r ∧
      f = ⟨m.classes, r, [.objectProperties]⟩ := by
  rw [factoryOf]
  simp only [bind_eq_ok_iff, mapError_eq_ok_iff, Manifest.ofText]
  cases hparts : Manifest.parts? text with
  | none => simp
  | some parts =>
    obtain ⟨types, declared⟩ := parts
    simp only [mapError_eq_ok_iff, pure, Except.pure, Except.ok.injEq]
    constructor
    · rintro ⟨m, hm, r, hr, rfl⟩
      exact ⟨types, declared, m, r, rfl, hm, hr, rfl⟩
    · rintro ⟨_, _, m, r, hsome, hm, hr, rfl⟩
      cases hsome
      exact ⟨m, hm, r, hr, rfl⟩

/-- For a text that `Loads` there is a factory, with the classes in order. -/
theorem exists_factoryOf {declared : List ClassDeclaration} (h : Loads text declared) :
    ∃ f, factoryOf text = .ok f ∧ f.source.keys = declared.map (·.name) := by
  obtain ⟨types, m, r, hparts, hm, hr⟩ := h
  exact ⟨_, factoryOf_eq_ok_iff.2 ⟨types, declared, m, r, hparts, hm, hr, rfl⟩,
    Manifest.keys_of_ofParts hm⟩

/-- A text that `factoryOf` succeeds for `Loads`. -/
theorem exists_loads (h : factoryOf text = .ok f) :
    ∃ declared, Loads text declared ∧ f.source.keys = declared.map (·.name) := by
  obtain ⟨types, declared, m, r, hparts, hm, hr, rfl⟩ := factoryOf_eq_ok_iff.1 h
  exact ⟨declared, ⟨types, m, r, hparts, hm, hr⟩, Manifest.keys_of_ofParts hm⟩

/-- What `describe` gives for the classes of a manifest, given its text. -/
def describeText (text : String) (className : Option String) : Except Failure String :=
  (factoryOf text).bind fun f => describe f className

section Run

variable {manifest? : String → Option String} {name : String} {arguments : List String}
  {c : Option String}
  (hread : manifest? name = some text)
  (harguments : Command.ofArguments? arguments = some ⟨name, .describe c⟩)
include hread harguments

/-- The command shows what `describeText` gives. -/
theorem run_describe : run arguments manifest? =
    Outcome.ofResult ((describeText text c).map fun t => { text := t }) := by
  rw [run, harguments]
  simp only [hread]
  rw [Task.perform, describeText]
  cases factoryOf text with
  | error e => rfl
  | ok f =>
    simp only [bind, Except.bind]
    cases describe f c <;> rfl

/-- The command succeeds if `describe` has a text to show. -/
theorem exitStatus_run_describe_eq_zero_iff :
    (run arguments manifest?).exitStatus = 0 ↔
      ∃ f, factoryOf text = .ok f ∧ ∃ t, describe f c = .ok t := by
  have hdescribe : (∃ t, describeText text c = .ok t) ↔
      ∃ f, factoryOf text = .ok f ∧ ∃ t, describe f c = .ok t := by
    rw [describeText]
    cases factoryOf text <;> simp [Except.bind]
  rw [run_describe hread harguments, ← hdescribe]
  cases describeText text c <;> simp [Except.map, Outcome.ofResult]

/-- The command shows the text of `describe` and ends the line. -/
theorem output_run_describe {t : String} (hf : factoryOf text = .ok f)
    (ht : describe f c = .ok t) : (run arguments manifest?).output = t ++ "\n" := by
  have hdescribe : describeText text c = .ok t := by
    rw [describeText, hf]
    exact ht
  rw [run_describe hread harguments, hdescribe]
  rfl

/-- If the command fails, its status is 2, and it shows nothing. -/
theorem run_describe_of_failure (h : (run arguments manifest?).exitStatus ≠ 0) :
    (run arguments manifest?).exitStatus = 2 ∧ (run arguments manifest?).output = "" := by
  rw [run_describe hread harguments] at h ⊢
  cases hdescribe : describeText text c with
  | error e => exact ⟨rfl, rfl⟩
  | ok t =>
    rw [hdescribe] at h
    exact absurd rfl h

end Run

/-- Take the text of a manifest (`hread`), a command line that describes its classes (`hall`), and
for every name a command line that describes the class of that name (`hone`). The first command
succeeds exactly if the manifest loads and the commands for all declared classes do. If it fails, it
shows nothing and ends with status 2. If it succeeds, it shows the object, laid out in lines, that
has the names of the declared classes as keys, in order, and under each name the text that the
command for that class shows, its lines but the first indented by two blanks. -/
theorem run_describe_all {manifest? : String → Option String} {name text : String}
    (hread : manifest? name = some text) {arguments : List String}
    (hall : Command.ofArguments? arguments = some ⟨name, .describe none⟩)
    {argumentsFor : String → List String}
    (hone : ∀ className, Command.ofArguments? (argumentsFor className) =
      some ⟨name, .describe (some className)⟩) :
    ((run arguments manifest?).exitStatus = 0 ↔ ∃ declared, Loads text declared ∧
      ∀ c ∈ declared, (run (argumentsFor c.name) manifest?).exitStatus = 0) ∧
    ((run arguments manifest?).exitStatus ≠ 0 →
      (run arguments manifest?).exitStatus = 2 ∧ (run arguments manifest?).output = "") ∧
    ∀ declared, Loads text declared → (run arguments manifest?).exitStatus = 0 →
      ∃ textOf : ClassDeclaration → String,
        (∀ c ∈ declared, (run (argumentsFor c.name) manifest?).output = textOf c ++ "\n") ∧
        (run arguments manifest?).output = String.ofList
          (Json.objectText (declared.map fun c => (c.name, (textOf c).toList))) ++ "\n" := by
  -- What the command exits with comes down to `Builds`, for all classes and for one.
  have hsucceeds : (run arguments manifest?).exitStatus = 0 ↔
      ∃ f, factoryOf text = .ok f ∧ ∀ c ∈ f.source.keys, f.Builds c := by
    simp only [exitStatus_run_describe_eq_zero_iff hread hall, exists_describe_all_iff]
  have hsucceedsFor (c : ClassDeclaration) :
      (run (argumentsFor c.name) manifest?).exitStatus = 0 ↔
        ∃ f, factoryOf text = .ok f ∧ f.Builds c.name := by
    simp only [exitStatus_run_describe_eq_zero_iff hread (hone c.name), exists_describe_class_iff]
  refine ⟨⟨fun h => ?_, ?_⟩, run_describe_of_failure hread hall, fun declared hloads h => ?_⟩
  · obtain ⟨f, hf, hbuilds⟩ := hsucceeds.1 h
    obtain ⟨declared, hloads, hkeys⟩ := exists_loads hf
    rw [hkeys] at hbuilds
    refine ⟨declared, hloads, fun c hc => (hsucceedsFor c).2 ⟨f, hf, ?_⟩⟩
    exact hbuilds c.name (List.mem_map_of_mem hc)
  · rintro ⟨declared, hloads, hdescribed⟩
    obtain ⟨f, hf, hkeys⟩ := exists_factoryOf hloads
    refine hsucceeds.2 ⟨f, hf, fun n hn => ?_⟩
    rw [hkeys] at hn
    obtain ⟨c, hc, rfl⟩ := List.mem_map.1 hn
    -- The command for the class has read the same manifest.
    obtain ⟨f', hf', hbuilds⟩ := (hsucceedsFor c).1 (hdescribed c hc)
    obtain rfl : f' = f := Except.ok.inj (hf'.symm.trans hf)
    exact hbuilds
  · obtain ⟨f, hf, hbuilds⟩ := hsucceeds.1 h
    obtain ⟨f', hf', hkeys⟩ := exists_factoryOf hloads
    obtain rfl : f = f' := Except.ok.inj (hf.symm.trans hf')
    refine ⟨fun c => descriptionOf f c.name, fun c hc => ?_, ?_⟩
    · obtain ⟨d, hd⟩ := hbuilds c.name (hkeys ▸ List.mem_map_of_mem hc)
      exact output_run_describe hread (hone c.name) hf (describe_class_eq hd)
    · obtain ⟨t, ht⟩ := exists_describe_all_iff.2 hbuilds
      -- The members that are shown are those that `renderPretty_zip` puts together.
      obtain ⟨ds, hds, rfl⟩ := describe_all_eq_ok_iff.1 ht
      have hshown := output_run_describe hread hall hf ht
      rw [renderPretty_zip hds, hkeys, List.map_map] at hshown
      exact hshown

/-- `ofArguments?` accepts any name behind the option that asks for one class. -/
theorem ofArguments?_describe_class (className : String) :
    Command.ofArguments? ["describe", "-", "--class=" ++ className] =
      some ⟨"-", .describe (some className)⟩ := by
  have hlist : ("--class=" ++ className).toList =
      '-' :: '-' :: ("class=".toList ++ className.toList) := String.toList_append
  have hdash : "--class=" ++ className ≠ "-" := fun h => by
    cases hlist.symm.trans (congrArg String.toList h)
  have hdashes : "--class=" ++ className ≠ "--" := fun h => by
    cases hlist.symm.trans (congrArg String.toList h)
  have hdashed : Arguments.isDashed ("--class=" ++ className) = true := by
    simp [Arguments.isDashed, hlist, hdash]
  have hvalue : Arguments.splitValue ("class=".toList ++ className.toList) =
      ("class".toList, some className.toList) := rfl
  have hitem : Arguments.readItem? classOptions ("--class=" ++ className) =
      some (.options [("class", some className)]) := by
    rw [Arguments.readItem?, if_pos hdashed, hlist]
    simp only [Arguments.readLong?, hvalue]
    simp [classOptions, verboseOption, classOption]
  have hmanifest : Arguments.readItem? classOptions "-" = some .positional := by rfl
  have hread : Arguments.ofList? classOptions ["-", "--class=" ++ className] =
      some ⟨[("class", some className)], ["-"]⟩ := by
    simp [Arguments.ofList?, Arguments.read?, hmanifest, hitem, hdashes, Arguments.withOptions]
  simp [Command.ofArguments?, Command.ofName?, Command.ofDescribe?, hread, Arguments.value?]

/-- A class inside a namespace. -/
def hookClass : ClassDeclaration := { name := "Depot\\Hook" }

/-- A class with a faulty import. -/
def wornClass : ClassDeclaration := { name := "Worn", imports := ["9"] }

/-- The text of a manifest of classes. -/
def manifestOf (classes : List ClassDeclaration) : String :=
  (Manifest.partsToJson [] classes).render

/-- `parts?` reads these classes from `manifestOf`. -/
theorem parts?_manifestOf (classes : List ClassDeclaration) :
    Manifest.parts? (manifestOf classes) = some ([], classes) :=
  Manifest.parts?_write .compact [] classes

/-- The factory for `manifestOf` some classes that can be used. -/
theorem factoryOf_manifestOf {classes : List ClassDeclaration} {m : Manifest} {r : TypeRegistry}
    (hm : Manifest.ofParts [] classes = .ok m) (hr : m.registry = .ok r) :
    factoryOf (manifestOf classes) = .ok ⟨m.classes, r, [.objectProperties]⟩ :=
  factoryOf_eq_ok_iff.2 ⟨[], classes, m, r, parts?_manifestOf classes, hm, hr, rfl⟩

/-- The factory for `hookClass`. -/
def hookFactory : MetadataFactory where
  source := ⟨[("Depot\\Hook", hookClass)], by decide⟩
  registry := ⟨[⟨"Depot\\Hook", .class, []⟩], by decide⟩
  analyzers := [.objectProperties]

/-- The factory for `hookClass` and `wornClass`. -/
def wornFactory : MetadataFactory where
  source := ⟨[("Depot\\Hook", hookClass), ("Worn", wornClass)], by decide⟩
  registry := ⟨[⟨"Depot\\Hook", .class, []⟩, ⟨"Worn", .class, []⟩], by decide⟩
  analyzers := [.objectProperties]

/-- The descriptor of `hookClass`. -/
def hookDescriptor : ClassDescriptor where
  name := "Depot\\Hook"
  inNamespace := "Depot"
  imports := ∅
  annotations := []
  properties := ∅
  methods := ∅
  features := ⟨[("object_properties", .object [])], by simp⟩

/-- By itself `hookClass` is described as the one member of an object. With `wornClass`, which
cannot be built, behind it, nothing is shown. -/
theorem run_describe_all_hook :
    (run ["describe", "-"] fun _ => some (manifestOf [hookClass])).exitStatus = 0 ∧
    (run ["describe", "-"] fun _ => some (manifestOf [hookClass])).output = String.ofList
      (Json.objectText [("Depot\\Hook", hookDescriptor.renderPretty.toList)]) ++ "\n" ∧
    (run ["describe", "-"] fun _ => some (manifestOf [hookClass, wornClass])).exitStatus = 2 ∧
    (run ["describe", "-"] fun _ => some (manifestOf [hookClass, wornClass])).output = "" := by
  have hall : Command.ofArguments? ["describe", "-"] = some ⟨"-", .describe none⟩ := by rfl
  have hdescribe (classes : List ClassDeclaration) :=
    @run_describe_all (fun _ => some (manifestOf classes)) "-" (manifestOf classes) rfl _ hall _
      ofArguments?_describe_class
  have hone (classes : List ClassDeclaration) (className : String) :=
    @exitStatus_run_describe_eq_zero_iff (manifestOf classes)
      (fun _ => some (manifestOf classes)) "-" _ _ rfl (ofArguments?_describe_class className)
  -- The class by itself: there is a factory, and the descriptor is built.
  have hregistry : Manifest.registry ⟨[], hookFactory.source⟩ = .ok hookFactory.registry := by cbv
  have hfactory : factoryOf (manifestOf [hookClass]) = .ok hookFactory :=
    factoryOf_manifestOf (by rfl) hregistry
  have hloads : Loads (manifestOf [hookClass]) [hookClass] :=
    ⟨_, _, _, parts?_manifestOf _, by rfl, hregistry⟩
  have hbuild : hookFactory.build hookClass.name = .ok hookDescriptor := by rfl
  obtain ⟨hsucceeds, -, hshows⟩ := hdescribe [hookClass]
  have hzero := hsucceeds.2 ⟨_, hloads, fun c hc => by
    rw [List.mem_singleton.1 hc]
    exact (hone _ _).2 ⟨_, hfactory, exists_describe_class_iff.2 ⟨_, hbuild⟩⟩⟩
  obtain ⟨textOf, htext, hshown⟩ := hshows _ hloads hzero
  have hline := @output_run_describe hookFactory (manifestOf [hookClass])
    (fun _ => some (manifestOf [hookClass])) "-" _ _ rfl
    (ofArguments?_describe_class hookClass.name) _ hfactory (describe_class_eq hbuild)
  have hsame : textOf hookClass = descriptionOf hookFactory hookClass.name :=
    (String.append_left_inj "\n").1 ((htext hookClass List.mem_cons_self).symm.trans hline)
  have hdescription : descriptionOf hookFactory hookClass.name = hookDescriptor.renderPretty := by
    rw [descriptionOf, hbuild]
  rw [List.map_cons, List.map_nil, hsame, hdescription] at hshown
  refine ⟨hzero, hshown, ?_⟩
  -- With the other class there is a factory as well, but no descriptor of this class.
  have hregistry : Manifest.registry ⟨[], wornFactory.source⟩ = .ok wornFactory.registry := by cbv
  have hfactory : factoryOf (manifestOf [hookClass, wornClass]) = .ok wornFactory :=
    factoryOf_manifestOf (by rfl) hregistry
  obtain ⟨e, hfault⟩ : ∃ e, wornFactory.build wornClass.name = .error e := ⟨_, by rfl⟩
  obtain ⟨hsucceeds, hfails, -⟩ := hdescribe [hookClass, wornClass]
  apply hfails
  intro hzero
  obtain ⟨declared, ⟨types, m, r, hdeclared, -, -⟩, hones⟩ := hsucceeds.1 hzero
  cases hdeclared.symm.trans (parts?_manifestOf _)
  obtain ⟨f, hf, hdescribed⟩ :=
    (hone _ _).1 (hones wornClass (List.mem_cons_of_mem _ List.mem_cons_self))
  cases hf.symm.trans hfactory
  obtain ⟨d, hd⟩ := exists_describe_class_iff.1 hdescribed
  cases hfault.symm.trans hd

end DocTypes.CommandLine
