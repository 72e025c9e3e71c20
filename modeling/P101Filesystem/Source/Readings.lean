import P101Filesystem.Source.Interface

/-! What is read off the events of a call: consultations, raises, native calls, callbacks,
records. -/
namespace P101Filesystem

def faultOf (e : Event) : Option (Api × Word) :=
  match e.op with
  | .checkFault f => some (f, e.answer)
  | _ => none

def raiseOf (e : Event) : Option (Domain × Word) :=
  match e.op with
  | .raise domain _ code => some (domain, code)
  | _ => none

def nativeOf (e : Event) : Option (Api × List Word × Event) :=
  match e.op with
  | .native f args => some (f, args, e)
  | _ => none

def callbackOf (e : Event) : Option (Word × List Word × Event) :=
  match e.op with
  | .callback fn args => some (fn, args, e)
  | _ => none

def recordOf (e : Event) : Option Record :=
  match e.op with
  | .record r => some r
  | _ => none

/-- Every consultation of the injector, with its answer. -/
def consulted (es : List Event) : List (Api × Word) := es.filterMap faultOf

def raised (es : List Event) : List (Domain × Word) := es.filterMap raiseOf

def natives (es : List Event) : List (Api × List Word × Event) := es.filterMap nativeOf

def callbacks (es : List Event) : List (Word × List Word × Event) := es.filterMap callbackOf

def recorded (es : List Event) : List Record := es.filterMap recordOf

@[simp] theorem consulted_nil : consulted [] = [] := rfl
@[simp] theorem raised_nil : raised [] = [] := rfl
@[simp] theorem natives_nil : natives [] = [] := rfl
@[simp] theorem callbacks_nil : callbacks [] = [] := rfl
@[simp] theorem recorded_nil : recorded [] = [] := rfl

@[simp] theorem consulted_append (es fs : List Event) :
    consulted (es ++ fs) = consulted es ++ consulted fs := List.filterMap_append
@[simp] theorem raised_append (es fs : List Event) : raised (es ++ fs) = raised es ++ raised fs :=
  List.filterMap_append
@[simp] theorem natives_append (es fs : List Event) :
    natives (es ++ fs) = natives es ++ natives fs := List.filterMap_append
@[simp] theorem callbacks_append (es fs : List Event) :
    callbacks (es ++ fs) = callbacks es ++ callbacks fs := List.filterMap_append
@[simp] theorem recorded_append (es fs : List Event) :
    recorded (es ++ fs) = recorded es ++ recorded fs := List.filterMap_append

@[simp] theorem consulted_cons (e : Event) (es : List Event) :
    consulted (e :: es) = (faultOf e).toList ++ consulted es := by
  unfold consulted
  cases h : faultOf e <;> simp [h]
@[simp] theorem raised_cons (e : Event) (es : List Event) :
    raised (e :: es) = (raiseOf e).toList ++ raised es := by
  unfold raised
  cases h : raiseOf e <;> simp [h]
@[simp] theorem natives_cons (e : Event) (es : List Event) :
    natives (e :: es) = (nativeOf e).toList ++ natives es := by
  unfold natives
  cases h : nativeOf e <;> simp [h]
@[simp] theorem callbacks_cons (e : Event) (es : List Event) :
    callbacks (e :: es) = (callbackOf e).toList ++ callbacks es := by
  unfold callbacks
  cases h : callbackOf e <;> simp [h]
@[simp] theorem recorded_cons (e : Event) (es : List Event) :
    recorded (e :: es) = (recordOf e).toList ++ recorded es := by
  unfold recorded
  cases h : recordOf e <;> simp [h]

def Op.raises : Op → Option (Domain × Word)
  | .raise domain _ code => some (domain, code)
  | _ => none

def Op.records : Op → Option Record
  | .record r => some r
  | _ => none

/-- What was raised, and what was recorded, is read off the operations alone. -/
theorem raised_eq_raises (es : List Event) :
    raised es = (es.map Effect.Event.op).filterMap Op.raises := by
  rw [List.filterMap_map]
  rfl

theorem recorded_eq_records (es : List Event) :
    recorded es = (es.map Effect.Event.op).filterMap Op.records := by
  rw [List.filterMap_map]
  rfl

end P101Filesystem
