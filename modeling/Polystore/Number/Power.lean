/-!
Powers of natural numbers and of integers are those of the core language, whichever libraries are in
scope.
-/

attribute [default_instance 20000, instance (high)] instPowNat
