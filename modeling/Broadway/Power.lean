/-!
# Powers

Powers of natural numbers and integers are the ones that come with the numbers themselves, and that
the lengths of bit vectors are stated with. A library imported later may bring powers of its own;
the preference below keeps every definition and statement here on the same ones.
-/

attribute [instance (2000), default_instance 20000] instPowNat
