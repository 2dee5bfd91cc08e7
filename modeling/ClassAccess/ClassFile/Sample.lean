import ClassAccess.ClassFile.Assembly

/-!
# A sample class

A small class with one of everything an access transform can touch: `net/example/Foo`, which
implements an interface, with

* two private fields, the second one final;
* a constructor, and a private method `foo` that `bar` calls without dynamic dispatch; `bar` also
  makes a new `Foo`, so it calls the constructor in the same way;
* the private body of a lambda, which a handle among the arguments of the dynamic call in `run`
  refers to;
* the record of a private static inner class.
-/

namespace ClassAccess.Sample

/-- The name of the class. -/
def className : String := "net/example/Foo"

/-- The descriptor of the method that makes the objects of lambdas. -/
def metafactoryDescriptor : String :=
  "(Ljava/lang/invoke/MethodHandles$Lookup;Ljava/lang/String;" ++
  "Ljava/lang/invoke/MethodType;Ljava/lang/invoke/MethodType;Ljava/lang/invoke/MethodHandle;" ++
  "Ljava/lang/invoke/MethodType;)Ljava/lang/invoke/CallSite;"

/-- A reference to a member of a class, not of an interface. -/
def member (owner name descriptor : String) : Member := ⟨owner, name, descriptor, false⟩

/-- The bytes of an opcode with a constant as its operand. -/
def withIndex (opcode : UInt8) (index : UInt16) : Bytes := opcode :: BigEndian.bytes16 index

/-- A body that does nothing. -/
def emptyBody : Body := { maxStack := 0, maxLocals := 1, code := [0xB1] }

/-- The members of the class. -/
def members : Assembling Unit := do
  Assembly.addInterface "java/io/Serializable"
  Assembly.addField 0x0002 "count" "I"
  Assembly.addField 0x0012 "name" "Ljava/lang/String;"
  let objectInit ←
    Assembly.interning (Assembly.methodReference (member "java/lang/Object" "<init>" "()V"))
  Assembly.addMethod 0x0001 "<init>" "()V" <| some
    { maxStack := 1, maxLocals := 1, code := [0x2A] ++ withIndex 0xB7 objectInit ++ [0xB1] }
  Assembly.addMethod 0x0002 "foo" "()V" (some emptyBody)
  let foo ← Assembly.interning (Assembly.methodReference (member className "foo" "()V"))
  let selfInit ← Assembly.interning (Assembly.methodReference (member className "<init>" "()V"))
  let self ← Assembly.classReference className
  Assembly.addMethod 0x0001 "bar" "()V" <| some
    { maxStack := 2, maxLocals := 1,
      code := [0x2A] ++ withIndex 0xB7 foo ++ withIndex 0xBB self ++ [0x59]
        ++ withIndex 0xB7 selfInit ++ [0x57, 0xB1] }
  Assembly.addMethod 0x1002 "lambda$run$0" "()V" (some emptyBody)
  let metafactory ← Assembly.interning <| Assembly.methodHandle
    ⟨.invokeStatic,
      member "java/lang/invoke/LambdaMetafactory" "metafactory" metafactoryDescriptor⟩
  let erased ← Assembly.interning (Assembly.methodType "()V")
  let implementation ← Assembly.interning <| Assembly.methodHandle
    ⟨.invokeSpecial, member className "lambda$run$0" "()V"⟩
  let bootstrap ← Assembly.addBootstrap metafactory [erased, implementation, erased]
  let callSite ← Assembly.interning
    (Assembly.callSite bootstrap "run" "(Lnet/example/Foo;)Ljava/lang/Runnable;")
  Assembly.addMethod 0x0001 "run" "()Ljava/lang/Runnable;" <| some
    { maxStack := 1, maxLocals := 1,
      code := [0x2A] ++ withIndex 0xBA callSite ++ [0, 0, 0xB0] }
  Assembly.addInnerClass
    { name := "net/example/Foo$Inner", outerName := some className, innerName := some "Inner",
      access := 0x000A }

/-- The class file. -/
def bytes : Except Fault Bytes := do
  let empty ← Assembly.start 0x0021 className (some "java/lang/Object")
  match members empty with
  | .ok () assembly => assembly.bytes
  | .error fault _ => .error fault

end ClassAccess.Sample
