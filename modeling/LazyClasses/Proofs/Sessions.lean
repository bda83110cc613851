import LazyClasses.Proofs.Declared
import LazyClasses.Session
import Mathlib.Data.List.Basic
/-! # The scopes of a class stay

In a session the scopes of a class are asked for when the first lazy class is made for it, and from
then on every lazy class of it is written with these scopes, whatever is registered, loaded,
configured or supplied in between.

* `Made`: what making a lazy class comes to. The cache is used in the last step alone, so whatever
  is refused leaves it as it was.
* `Embeds`: a lazy class is written around the lines for the scopes.
* `perform_of_makes`, `cache_perform_of_cls?_eq_none`: one operation.
* `entries_after`: all of them; the cache only grows.
* `first_scopes_stay`: what this comes to for the lazy classes of a session. -/

namespace LazyClasses

/-! ### The cache -/

namespace ScopeCache

variable {cache cache' : ScopeCache} {cls : String} {scopes m : ScopeMap}

theorem fst_getOrInsert : (cache.getOrInsert cls scopes).1 = (cache.get? cls).getD scopes := by
  unfold getOrInsert
  cases cache.get? cls <;> rfl

theorem entries_getOrInsert : (cache.getOrInsert cls scopes).2.entries =
    cache.entries ++ if (cache.get? cls).isSome then [] else [(Text.lower cls, scopes)] := by
  unfold getOrInsert
  cases cache.get? cls with
  | none => rfl
  | some known => exact (List.append_nil _).symm

theorem get?_getOrInsert : (cache.getOrInsert cls scopes).2.get? cls =
    some ((cache.get? cls).getD scopes) := by
  cases h : cache.get? cls with
  | none => exact get?_getOrInsert_of_get?_eq_none h scopes
  | some known => rw [getOrInsert_of_get? h, h]; rfl

/-- What is known stays known in a cache that has grown. -/
theorem get?_of_prefix (h : cache.entries <+: cache'.entries) (hm : cache.get? cls = some m) :
    cache'.get? cls = some m := by
  obtain ⟨more, hmore⟩ := h
  rw [get?] at hm ⊢
  rw [← hmore, List.lookup_append, hm]
  rfl

theorem get?_congr {other : String} (h : Text.lower cls = Text.lower other) :
    cache.get? cls = cache.get? other := by
  rw [get?, get?, h]

end ScopeCache

/-! ### The text of a lazy class -/

namespace LazyClass

/-- The scopes that a lazy class is written with, if it extends a class. -/
def scopes? : LazyClass → Option ScopeMap
  | ghost g => some g.scopes
  | proxy p => p.scopes

/-- The constant that holds lines of scopes. -/
def constant (lines : List String) : String :=
  "    private const LAZY_OBJECT_PROPERTY_SCOPES = " ++
    (if lines.isEmpty then "[]" else "[\n" ++ String.join (lines.map (· ++ "\n")) ++ "    ]") ++
      ";\n"

/-- The lines in front of those for the class: a proxy has a property of its own. -/
def ownLines : LazyClass → List String
  | ghost _ => []
  | proxy _ => [
      "        'lazyObjectReal' => [self::class, 'lazyObjectReal', null],",
      "        \"\\0\".self::class.\"\\0lazyObjectReal\" => [self::class, 'lazyObjectReal', null],"]

/-- What is written in front of the constant. -/
def front (options : Options) : LazyClass → String
  | ghost g => " extends \\" ++ g.parent.name ++ " implements " ++
      options.symbol "LazyObjectInterface" ++ "\n\x7b\n    use " ++
      options.symbol "LazyGhostTrait" ++ ";\n\n    private int $lazyObjectId;\n\n"
  | proxy p =>
    (match p.target.cls with
      | some c => " extends \\" ++ c.name
      | none => "") ++
    " implements " ++ ", ".intercalate (p.implemented options) ++ "\n\x7b\n    use " ++
    options.symbol "LazyProxyTrait" ++ ";\n\n    private int $lazyObjectId;\n    private " ++
    p.target.realType ++ " $lazyObjectReal;\n" ++ "\n"

/-- What is written behind the constant. -/
def back (options : Options) : LazyClass → String
  | ghost _ => "\x7d\n\n" ++ Support.preloadHints options
  | proxy p =>
    (match p.members options with
      | [] => ""
      | members => "\n" ++ "\n\n".intercalate members ++ "\n") ++
    "\x7d\n\n" ++ Support.preloadHints options

/-- The text is that of the lazy class around the given lines. -/
def Embeds (options : Options) (made : LazyClass) (text : GeneratedClass) (lines : List String) :
    Prop :=
  text.body = made.front options ++ constant (made.ownLines ++ lines) ++ made.back options

theorem text_eq_lines (parent : String) (m : ScopeMap) : ScopeLiteral.text parent m =
    if (ScopeLiteral.lines parent m).isEmpty then "[]" else
      "[\n" ++ String.join ((ScopeLiteral.lines parent m).map (· ++ "\n")) ++ "    ]" := by
  have hlength : (ScopeLiteral.lines parent m).length = m.entries.length := by
    rw [ScopeLiteral.lines, List.length_map, ScopeLiteral.sorted, List.length_mergeSort]
  have hempty : (ScopeLiteral.lines parent m).isEmpty = m.isEmpty := by
    rw [ScopeMap.isEmpty, Bool.eq_iff_iff, List.isEmpty_iff_length_eq_zero,
      List.isEmpty_iff_length_eq_zero, hlength]
  rw [ScopeLiteral.text, hempty]

theorem scopesConstant_eq (parent : String) (p : Proxy) (m : ScopeMap) :
    Proxy.scopesConstant parent m =
      "\n" ++ constant ((proxy p).ownLines ++ ScopeLiteral.lines parent m) := by
  have hopening : "\n    private const LAZY_OBJECT_PROPERTY_SCOPES = [\n" =
      "\n" ++ ("    private const LAZY_OBJECT_PROPERTY_SCOPES = " ++ "[\n") := by
    simp only [String.reduceAppend]
  have hplain : "        'lazyObjectReal' => [self::class, 'lazyObjectReal', null],\n" =
      "        'lazyObjectReal' => [self::class, 'lazyObjectReal', null]," ++ "\n" := by
    simp only [String.reduceAppend]
  have hprivate :
      "        \"\\0\".self::class.\"\\0lazyObjectReal\" => [self::class, 'lazyObjectReal', null],\n" =
        "        \"\\0\".self::class.\"\\0lazyObjectReal\" => [self::class, 'lazyObjectReal', null]," ++
          "\n" := by
    simp only [String.reduceAppend]
  have hclosing : "    ];\n" = "    ]" ++ ";\n" := by simp only [String.reduceAppend]
  unfold Proxy.scopesConstant constant ownLines
  simp only [-String.reduceAppend, List.cons_append, List.nil_append, List.isEmpty_cons,
    Bool.false_eq_true, if_false, List.map_cons, String.join_cons, String.append_assoc, hopening,
    hplain, hprivate, hclosing]

theorem embeds_generated {options : Options} {made : LazyClass} {c : ClassDecl} {m : ScopeMap}
    (hc : made.cls = some c) (hm : made.scopes? = some m) :
    made.Embeds options (made.generated options) (ScopeLiteral.lines c.name m) := by
  cases made with
  | ghost g =>
    obtain rfl : g.parent = c := Option.some.inj hc
    obtain rfl : g.scopes = m := Option.some.inj hm
    have hclosing : ";\n\x7d\n\n" = ";\n" ++ "\x7d\n\n" := by simp only [String.reduceAppend]
    unfold Embeds generated Ghost.generated front back constant ownLines
    simp only [-String.reduceAppend, text_eq_lines, List.nil_append, String.append_assoc, hclosing]
  | proxy p =>
    have hc : p.target.cls = some c := hc
    have hm : p.scopes = some m := hm
    unfold Embeds generated Proxy.generated front back
    cases hmembers : p.members options <;>
      simp only [-String.reduceAppend, hc, hm, hmembers, scopesConstant_eq c.name p,
        String.append_assoc]

end LazyClass

/-! ### Making a lazy class -/

section Work

variable {α β : Type} {g : Generator} {cache : ScopeCache}

theorem run_bind (w : Work α) (f : α → Work β) : (w >>= f).run cache =
    match w.run cache with
    | (.ok a, cache') => (f a).run cache'
    | (.error e, cache') => (.error e, cache') := by
  change ExceptT.bindCont f (w.run cache).1 (w.run cache).2 = _
  cases w.run cache with
  | mk result cache' => cases result <;> rfl

theorem run_askClass (kind : LazyKind) (name : String) :
    (g.askClass kind name).run cache = (g.lookup kind name, cache) := by
  unfold Generator.askClass
  cases g.lookup kind name <;> rfl

theorem run_mapM_askClass? (kind : LazyKind) (name : Option String) :
    (name.mapM (g.askClass kind)).run cache = (name.mapM (g.lookup kind), cache) := by
  cases name with
  | none => rfl
  | some name =>
    change (g.askClass kind name >>= fun c => pure (some c)).run cache = _
    rw [run_bind, run_askClass]
    change _ = (some <$> g.lookup kind name, cache)
    cases g.lookup kind name <;> rfl

theorem run_mapM_askClass (kind : LazyKind) : ∀ names : List String,
    (names.mapM (g.askClass kind)).run cache = (names.mapM (g.lookup kind), cache)
  | [] => rfl
  | name :: names => by
    rw [List.mapM_cons, List.mapM_cons, run_bind, run_askClass]
    cases g.lookup kind name with
    | error e => rfl
    | ok c =>
      simp only [run_bind, run_mapM_askClass kind names]
      cases names.mapM (g.lookup kind) <;> rfl

end Work

/-- A result with the cache that it leaves, where a refusal leaves the cache that there was. -/
def settled {α : Type} (cache : ScopeCache) :
    Except Refusal (α × ScopeCache) → Except Refusal α × ScopeCache
  | .ok (a, cache') => (.ok a, cache')
  | .error e => (.error e, cache)

namespace Generator

variable {g : Generator} {cache : ScopeCache}

/-- **Making a ghost step by step** comes to the ghost; all refusals come before the scopes are
asked for. -/
theorem run_makeGhost (c : ClassDecl) :
    (g.makeGhost c).run cache = settled cache (g.ghost cache c) := by
  unfold makeGhost ghost ghostObstacle?
  cases hshape : g.shapeObstacle? c with
  | some obstacle => rfl
  | none =>
    cases hgetter : g.getterObstacle? c with
    | some obstacle => rfl
    | none =>
      cases htrait : g.traitObstacle? c with
      | some obstacle => rfl
      | none => cases g.ancestorObstacle? c <;> rfl

/-- **Making a proxy step by step** comes to the proxy. -/
theorem run_makeProxy (t : Target) :
    (g.makeProxy t).run cache = settled cache (g.proxy cache t) := by
  unfold makeProxy proxy proxyObstacle?
  cases htarget : g.targetObstacle? t with
  | some obstacle => rfl
  | none =>
    cases hgetter : g.narrowGetterObstacle? t with
    | some obstacle => rfl
    | none =>
      cases hmethod : g.methodObstacle? t with
      | some obstacle => rfl
      | none => cases t.cls <;> rfl

end Generator

/-- **What making a lazy class comes to**: a refusal or a proxy without a class, which leave the
cache as it is, or a lazy class with the scopes that the cache then knows for its class. -/
inductive Made (g : Generator) (cache : ScopeCache) : Except Refusal LazyClass × ScopeCache → Prop
  | refused (e : Refusal) : Made g cache (.error e, cache)
  | without {made : LazyClass} : made.cls = none → Made g cache (.ok made, cache)
  | extending {made : LazyClass} {c : ClassDecl} : made.cls = some c →
      made.scopes? = some (g.scopes cache c.name).1 →
      Made g cache (.ok made, (g.scopes cache c.name).2)

theorem run_ghost (g : Generator) (cache : ScopeCache) (c : ClassDecl) :
    ((Request.ghost c).make g).run cache = match g.ghostObstacle? c with
      | some obstacle => (.error ⟨.ghost, c.name, obstacle⟩, cache)
      | none =>
        (.ok (.ghost ⟨c, (g.scopes cache c.name).1⟩), (g.scopes cache c.name).2) := by
  change ((g.makeGhost c) >>= fun made => pure (LazyClass.ghost made)).run cache = _
  rw [run_bind, Generator.run_makeGhost, Generator.ghost]
  cases g.ghostObstacle? c <;> rfl

theorem run_proxy (g : Generator) (cache : ScopeCache) (t : Target) :
    ((Request.proxy t).make g).run cache = match g.proxyObstacle? t, t.cls with
      | some (cls, obstacle), _ => (.error ⟨.proxy, cls, obstacle⟩, cache)
      | none, none =>
        (.ok (.proxy ⟨t, none, (g.narrowGetter? t).map g.getterType, g.forwarders t⟩), cache)
      | none, some c =>
        (.ok (.proxy ⟨t, some (g.scopes cache c.name).1, (g.narrowGetter? t).map g.getterType,
          g.forwarders t⟩), (g.scopes cache c.name).2) := by
  change ((g.makeProxy t) >>= fun made => pure (LazyClass.proxy made)).run cache = _
  rw [run_bind, Generator.run_makeProxy, Generator.proxy]
  cases g.proxyObstacle? t with
  | some obstacle => rfl
  | none => cases t.cls <;> rfl

theorem made_ghost (g : Generator) (cache : ScopeCache) (c : ClassDecl) :
    Made g cache (((Request.ghost c).make g).run cache) := by
  rw [run_ghost]
  cases g.ghostObstacle? c with
  | some obstacle => exact .refused _
  | none => exact .extending rfl rfl

theorem made_proxy (g : Generator) (cache : ScopeCache) (t : Target) :
    Made g cache (((Request.proxy t).make g).run cache) := by
  rw [run_proxy]
  cases g.proxyObstacle? t with
  | some obstacle => exact .refused _
  | none =>
    cases hc : t.cls with
    | none => exact .without hc
    | some c => exact .extending hc rfl

theorem Request.made (request : Request) (g : Generator) (cache : ScopeCache) :
    Made g cache ((request.make g).run cache) := by
  cases request with
  | ghost c => exact made_ghost g cache c
  | ghostFor name =>
    change Made g cache (((g.askClass .ghost name) >>= fun c => (Request.ghost c).make g).run cache)
    rw [run_bind, run_askClass]
    cases g.lookup .ghost name with
    | error e => exact .refused e
    | ok c => exact made_ghost g cache c
  | proxy t => exact made_proxy g cache t
  | proxyFor cls interfaces =>
    change Made g cache ((cls.mapM (g.askClass .proxy) >>= fun cls =>
      interfaces.mapM (g.askClass .proxy) >>= fun interfaces =>
        (Request.proxy ⟨cls, interfaces⟩).make g).run cache)
    rw [run_bind, run_mapM_askClass?]
    cases cls.mapM (g.lookup .proxy) with
    | error e => exact .refused e
    | ok cls =>
      simp only [run_bind, run_mapM_askClass]
      cases interfaces.mapM (g.lookup .proxy) with
      | error e => exact .refused e
      | ok interfaces => exact made_proxy g cache ⟨cls, interfaces⟩

/-! ### Operations -/

/-- The class of the lazy class that was made, if any was and it extends one. -/
def Answer.cls? : Answer → Option ClassDecl
  | .made result _ => result.cls
  | _ => none

namespace Session

variable {s : Session} {op : Operation} {made : LazyClass} {text : GeneratedClass} {c : ClassDecl}

/-- The scopes that an operation has for a class that is not known. -/
def supplied (s : Session) (op : Operation) (cls : String) : ScopeMap :=
  match op with
  | .make _ supplier => (s.generator supplier).supplier cls
  | _ => s.registry.propertyScopes cls

/-- The operation makes a lazy class of the given text that extends the given class. -/
structure Makes (s : Session) (op : Operation) (made : LazyClass) (text : GeneratedClass)
    (c : ClassDecl) : Prop where
  answer : (s.perform op).1 = .made made text
  cls : made.cls = some c

/-- **What making a lazy class of a class does**: it is written with the scopes that are known, or
else with those supplied, and these are known then. -/
theorem perform_of_makes (h : s.Makes op made text c) :
    (s.perform op).2.cache = (s.cache.getOrInsert c.name (s.supplied op c.name)).2 ∧
      made.Embeds s.options text
        (ScopeLiteral.lines c.name ((s.cache.get? c.name).getD (s.supplied op c.name))) := by
  obtain ⟨hanswer, hc⟩ := h
  -- Only what makes a lazy class answers with one.
  cases op with
  | register c => cases hanswer
  | load sources => cases hanswer
  | configure options => cases hanswer
  | make request supplier =>
    have hmade := request.made (s.generator supplier) s.cache
    change (s.conclude _).1 = _ at hanswer
    change (s.conclude _).2.cache = _ ∧ _
    generalize (request.make (s.generator supplier)).run s.cache = result at hmade hanswer ⊢
    cases hmade with
    | refused e => cases hanswer
    | without hnone =>
      cases hanswer
      rw [hnone] at hc
      cases hc
    | @extending _ d hd hscopes =>
      cases hanswer
      obtain rfl := Option.some.inj (hd.symm.trans hc)
      rw [Generator.scopes, ScopeCache.fst_getOrInsert] at hscopes
      exact ⟨rfl, LazyClass.embeds_generated hc hscopes⟩

/-- **What makes no lazy class of a class** leaves the cache as it is. -/
theorem cache_perform_of_cls?_eq_none (h : (s.perform op).1.cls? = none) :
    (s.perform op).2.cache = s.cache := by
  cases op with
  | register c => rfl
  | load sources => rfl
  | configure options => rfl
  | make request supplier =>
    have hmade := request.made (s.generator supplier) s.cache
    change (s.conclude _).1.cls? = _ at h
    change (s.conclude _).2.cache = _
    generalize (request.make (s.generator supplier)).run s.cache = result at hmade h ⊢
    cases hmade with
    | refused e => rfl
    | without hnone => rfl
    | extending hd _ => cases hd.symm.trans h

theorem makes_of_cls?_eq_some (h : (s.perform op).1.cls? = some c) :
    ∃ made text, s.Makes op made text c := by
  cases hanswer : (s.perform op).1 with
  | made made text => exact ⟨made, text, hanswer, by rwa [hanswer] at h⟩
  | registered | loaded | configured | refused => rw [hanswer] at h; cases h

theorem snd_perform_make (s : Session) (request : Request) (supplier : Option (String → ScopeMap)) :
    (s.perform (.make request supplier)).2 =
      { s with cache := ((request.make (s.generator supplier)).run s.cache).2 } := by
  change (s.conclude _).2 = _
  obtain ⟨result, cache⟩ := (request.make (s.generator supplier)).run s.cache
  cases result <;> rfl

theorem makes_of_run {request : Request} {supplier : Option (String → ScopeMap)}
    {cache : ScopeCache} (h : (request.make (s.generator supplier)).run s.cache = (.ok made, cache))
    (hc : made.cls = some c) :
    s.Makes (.make request supplier) made (made.generated s.options) c := by
  refine ⟨?_, hc⟩
  change (s.conclude _).1 = _
  rw [h]
  rfl

theorem exists_makes_ghost {supplier : Option (String → ScopeMap)}
    (h : (s.generator supplier).ghostObstacle? c = none) :
    ∃ made text, s.Makes (.make (.ghost c) supplier) made text c := by
  have hrun := run_ghost (s.generator supplier) s.cache c
  rw [h] at hrun
  exact ⟨_, _, makes_of_run hrun rfl⟩

theorem exists_makes_proxy {supplier : Option (String → ScopeMap)} {t : Target}
    (hc : t.cls = some c) (h : (s.generator supplier).proxyObstacle? t = none) :
    ∃ made text, s.Makes (.make (.proxy t) supplier) made text c := by
  have hrun := run_proxy (s.generator supplier) s.cache t
  rw [h, hc] at hrun
  exact ⟨_, _, makes_of_run hrun hc⟩

/-! ### Many operations -/

/-- **One operation only adds to the cache.** -/
theorem entries_perform (s : Session) (op : Operation) :
    s.cache.entries <+: (s.perform op).2.cache.entries := by
  cases h : (s.perform op).1.cls? with
  | none => simp only [cache_perform_of_cls?_eq_none h, List.prefix_refl]
  | some c =>
    obtain ⟨made, text, hmakes⟩ := makes_of_cls?_eq_some h
    rw [(perform_of_makes hmakes).1, ScopeCache.entries_getOrInsert]
    exact List.prefix_append _ _

/-- **So do many.** -/
theorem entries_after (s : Session) (ops : List Operation) :
    s.cache.entries <+: (s.after ops).cache.entries := by
  induction ops generalizing s with
  | nil => exact List.prefix_refl _
  | cons op ops ih => exact (entries_perform s op).trans (ih (s.perform op).2)

/-- A lazy class that is made when the scopes of its class are known is written with these. -/
theorem embeds_of_get? {m : ScopeMap} {cls : String} (hm : s.cache.get? cls = some m)
    (ops : List Operation) (h : (s.after ops).Makes op made text c)
    (hc : Text.lower c.name = Text.lower cls) :
    made.Embeds (s.after ops).options text (ScopeLiteral.lines c.name m) := by
  have hknown : (s.after ops).cache.get? c.name = some m := by
    rw [ScopeCache.get?_congr hc]
    exact ScopeCache.get?_of_prefix (entries_after s ops) hm
  have hembeds := (perform_of_makes h).2
  rwa [hknown] at hembeds

/-- When a lazy class has been made, the scopes of its class are known. -/
theorem get?_of_makes (h : s.Makes op made text c) : (s.perform op).2.cache.get? c.name =
    some ((s.cache.get? c.name).getD (s.supplied op c.name)) := by
  rw [(perform_of_makes h).1, ScopeCache.get?_getOrInsert]

/-- **The scopes of a class stay.** What makes no lazy class of a class leaves the cache as it is.
Making one adds an entry if there is none, and no entry is changed or removed. So from the first
lazy class of a class on, all of them are written with the scopes that were supplied for it; any
two of the same declaration with the same lines. -/
theorem first_scopes_stay (s : Session) :
    (∀ op, (s.perform op).1.cls? = none → (s.perform op).2.cache = s.cache) ∧
    (∀ op made text c, s.Makes op made text c → (s.perform op).2.cache.entries =
      s.cache.entries ++ if (s.cache.get? c.name).isSome then []
        else [(Text.lower c.name, s.supplied op c.name)]) ∧
    (∀ ops, s.cache.entries <+: (s.after ops).cache.entries ∧
      ∀ cls m, s.cache.get? cls = some m → (s.after ops).cache.get? cls = some m) ∧
    (∀ op made text c, s.Makes op made text c → s.cache.get? c.name = none →
      made.Embeds s.options text (ScopeLiteral.lines c.name (s.supplied op c.name)) ∧
      ∀ ops op' made' text' c', ((s.perform op).2.after ops).Makes op' made' text' c' →
        Text.lower c'.name = Text.lower c.name →
        made'.Embeds ((s.perform op).2.after ops).options text'
          (ScopeLiteral.lines c'.name (s.supplied op c.name))) ∧
    (∀ op made text ops op' made' text' c, s.Makes op made text c →
      ((s.perform op).2.after ops).Makes op' made' text' c →
      ∃ lines, made.Embeds s.options text lines ∧
        made'.Embeds ((s.perform op).2.after ops).options text' lines) := by
  refine ⟨fun op => cache_perform_of_cls?_eq_none, ?_, ?_, ?_, ?_⟩
  · intro op made text c h
    rw [(perform_of_makes h).1, ScopeCache.entries_getOrInsert]
  · exact fun ops =>
      ⟨entries_after s ops, fun cls m => ScopeCache.get?_of_prefix (entries_after s ops)⟩
  · intro op made text c h hnone
    have hknown := get?_of_makes h
    have hembeds := (perform_of_makes h).2
    rw [hnone] at hknown hembeds
    exact ⟨hembeds, fun ops op' made' text' c' h' hc' => embeds_of_get? hknown ops h' hc'⟩
  · intro op made text ops op' made' text' c h h'
    exact ⟨_, (perform_of_makes h).2, embeds_of_get? (get?_of_makes h) ops h' rfl⟩

end Session

namespace Sample

/-- A session that knows the bag and the collection. -/
def shop : Session where
  registry := collections.registry

/-- The scopes of the bag that someone supplies. -/
def sized : ScopeMap := ScopeMap.ofList [("size", ⟨"Bag", "size", none⟩)]

theorem ghostObstacle?_bag (supplier : Option (String → ScopeMap)) :
    (shop.generator supplier).ghostObstacle? bag = none := by
  have hmethod (name : String) : (shop.generator supplier).registry.method? bag name =
      bag.method? name := Registry.method?_of_no_reference _ rfl rfl name
  have htrait : (shop.generator supplier).traitObstacle? bag = none := by
    simp only [Generator.traitObstacle?, hmethod]
    decide
  have hancestor : (shop.generator supplier).ancestorObstacle? bag = none := by
    rw [Generator.ancestorObstacle?, Registry.ancestors_of_parent_eq_none _ rfl]
    rfl
  have hgetter : (shop.generator supplier).getterObstacle? bag = none := by
    rw [Generator.getterObstacle?, hmethod]
    rfl
  rw [Generator.ghostObstacle?, hgetter, htrait, hancestor]
  rfl

theorem generator_shop (cache : ScopeCache) :
    ({ shop with cache } : Session).generator none = collections := by
  have hnone (s : Session) : s.generator none = { registry := s.registry, options := s.options } :=
    rfl
  rw [hnone]
  unfold shop collections
  rfl

/-- The supplied scopes stay: the proxy is written with the line of the ghost, though the class has
no such property. -/
theorem shop_scopes_stay : ∃ ghost text proxy text',
    shop.Makes (.make (.ghost bag) (some fun _ => sized)) ghost text bag ∧
    (shop.perform (.make (.ghost bag) (some fun _ => sized))).2.Makes
      (.make (.proxy bagCollection) none) proxy text' bag ∧
    ghost.Embeds shop.options text (ScopeLiteral.lines "Bag" sized) ∧
    proxy.Embeds shop.options text' (ScopeLiteral.lines "Bag" sized) := by
  obtain ⟨ghost, text, hghost⟩ :=
    Session.exists_makes_ghost (ghostObstacle?_bag (some fun _ => sized))
  have hsession := Session.snd_perform_make shop (.ghost bag) (some fun _ => sized)
  have hproxy : ((shop.perform (.make (.ghost bag) (some fun _ => sized))).2.generator
      none).proxyObstacle? bagCollection = none := by
    rw [hsession, generator_shop]
    exact proxyObstacle?_bagCollection
  obtain ⟨proxy, text', hproxy⟩ := Session.exists_makes_proxy rfl hproxy
  obtain ⟨-, -, -, hstay, -⟩ := Session.first_scopes_stay shop
  obtain ⟨hembeds, hlater⟩ := hstay _ _ _ _ hghost rfl
  have hoptions : ((shop.perform (.make (.ghost bag) (some fun _ => sized))).2.after []).options =
      shop.options := by
    rw [Session.after, hsession]
  have hlater := hlater [] _ _ _ _ hproxy rfl
  rw [hoptions] at hlater
  exact ⟨ghost, text, proxy, text', hghost, hproxy, hembeds, hlater⟩

end Sample

end LazyClasses
